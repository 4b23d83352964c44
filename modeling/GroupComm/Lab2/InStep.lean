import GroupComm.Lab2.Roles

/-!
# Requests and replies stay in step

Every message that a process reads is one that it expects: an `OkMsg` with the identifier of
the request, a request or a view from the leader, the messages of a takeover.  This needs
that

* a takeover connects to no process that accepts peers as a leader itself, and
* the failure detector deletes nobody before the process has found out that it leads.

`expected_of_inTurn` is the invariant over whole runs; `leader_reads_view` shows two members
that elect themselves.
-/

namespace GroupComm.Lab2

open MembershipService World Transition

/-- A takeover is about to connect to a process that leads. -/
def World.reachesLeader (s : World) (i : ProcId) : Bool :=
  match (s.processes i).main with
  | .sendNewLeaderMsg _ (peer :: _) _ =>
      (List.range s.started).any fun j => s.listens peer j && (s.processes j).main.serves
  | _ => false

/-- Neither of the two ways to get out of step is taken. -/
def InTurn (s : World) : Event → Prop
  | .tick i order =>
      (s.processes i).startsDeletion order = true → (s.processes i).main.serves = true
  | .run i .main => s.reachesLeader i = false
  | _ => True

instance decidableInTurn (s : World) : ∀ e, Decidable (InTurn s e)
  | .tick _ _ => inferInstanceAs (Decidable (_ → _))
  | .run _ .detector => inferInstanceAs (Decidable True)
  | .run _ .main => inferInstanceAs (Decidable (_ = _))
  | .start _ => inferInstanceAs (Decidable True)
  | .crash _ => inferInstanceAs (Decidable True)
  | .heartBeat _ _ => inferInstanceAs (Decidable True)
  | .fail _ _ => inferInstanceAs (Decidable True)

/-- Whether a thread goes on with a message that it reads: no `CHECK` and no `LOG(FATAL)`. -/
def Process.expects (pr : Process) (t : Thread) (m : Msg) : Bool :=
  match pr.operation t, t, pr.main, m with
  | some (.waitForOkMsg requestMsg _), _, _, .ok okMsg =>
      decide (okMsg.requestId = requestMsg.requestId)
  | none, .main, .startAsFollower, .request _ => true
  | none, .main, .startAsFollower, .newView _ => true
  | none, .main, .waitForPendingRequestMsg _ _, .request _ => true
  | none, .main, .greet _, .newLeader _ => true
  | _, _, _, _ => false

/-- Whatever a thread is about to read is expected. -/
def World.InStep (s : World) : Prop :=
  ∀ i t client received lost m rest, (s.processes i).running = true →
    (s.processes i).effect t = .receive client received lost → s.inbox client = m :: rest →
      (s.processes i).expects t m = true

/-! ## The roles at both ends -/

/-- The role at a socket: that of its process, or the one that waits for it in a backlog. -/
inductive World.Plays (s : World) (k : Socket) : Role → Prop
  | process {R} (plays : (s.processes (s.owner k)).Plays k R) : Plays s k R
  | queued (waits : k ∈ s.backlog (s.owner k))
      (serves : (s.processes (s.owner k)).main.serves = true) : Plays s k (.leads [])
  | heard (waits : k ∈ s.backlog (s.owner k))
      (place : (s.processes (s.owner k)).main = .waitForNewLeaderMsg) : Plays s k .greets

structure InSession (s : World) : Prop where
  tidy : ∀ i, (s.processes i).Tidy
  /-- Connections only wait where somebody listens. -/
  closed : ∀ i, (s.processes i).running = true → (s.processes i).main.listening = false →
    s.backlog i = []
  queue : ∀ i, (s.backlog i).Nodup
  unused : ∀ i p k, k ∈ s.backlog i → ¬ (s.processes i).Holds p k
  session : ∀ k : Socket, k.connection < s.opened →
    Session Joint (s.Plays k) (s.Plays k.peer) (s.inbox k) (s.inbox k.peer)

/-- Where a process that listens goes. -/
theorem ThreadStep.listens {pr next : Process} {t : Thread} {label : Label}
    (step : ThreadStep pr t label next) (tidy : pr.Tidy) (listening : pr.main.listening = true) :
    next.main = .stopped ∨ next.main.listening = true ∧ next.main.serves = true ∧
      pr.main.serves = true ∨ ∃ k p, label = .accepted true k p := by
  have in_operation {operation : Operation} (place : pr.operation t = some operation)
      (data : Process) (main : data.main = pr.main) (next : Operation) :
      (data.setOperation next t).main.listening = true ∧
        (data.setOperation next t).main.serves = true ∧ pr.main.serves = true := by
    rcases Process.operation_cases place with ⟨rfl, here⟩ | ⟨rfl, here⟩ | ⟨rfl, here⟩
    · rw [Process.setOperation_addPeer (main.trans here), here]
      exact ⟨rfl, rfl, rfl⟩
    · rw [here] at listening
      cases listening
    · have serves := tidy.deleting (by rw [here]; exact Option.some_ne_none _)
      change data.main.listening = true ∧ data.main.serves = true ∧ _
      rw [main]
      exact ⟨listening, serves, serves⟩
  have elsewhere {place : MainState} (here : pr.main = place) (deaf : place.listening = false) :
      False := by
    rw [here, deaf] at listening
    cases listening
  cases step with
  | dies _ => exact Or.inl rfl
  | call place =>
      exact Or.inr (Or.inl (in_operation place { pr with service := pr.service.countRequest } rfl _))
  | lock place free => exact Or.inr (Or.inl (in_operation place (pr.beginOperation _) rfl _))
  | sendRequestMsg place found => exact Or.inr (Or.inl (in_operation place pr rfl _))
  | requestsSent place => exact Or.inr (Or.inl (in_operation place pr rfl _))
  | waitForOkMsg place found expected => exact Or.inr (Or.inl (in_operation place pr rfl _))
  | newView place => exact Or.inr (Or.inl (in_operation place (pr.endOperation _) rfl _))
  | printNewlyInstalledView place free => exact Or.inr (Or.inl (in_operation place pr rfl _))
  | sendNewViewMsg place => exact Or.inr (Or.inl (in_operation place pr rfl _))
  | lockView place free => exact Or.inr (Or.inl (in_operation place pr rfl _))
  | deliver place found => exact Or.inr (Or.inl (in_operation place pr rfl _))
  | delivered place =>
      rcases Process.operation_cases place with ⟨rfl, here⟩ | ⟨rfl, here⟩ | ⟨rfl, here⟩
      · rw [Process.finishOperation_addPeer here, here]
        exact Or.inr (Or.inl ⟨rfl, rfl, rfl⟩)
      · exact (elsewhere here rfl).elim
      · have serves := tidy.deleting (by rw [here]; exact Option.some_ne_none _)
        exact Or.inr (Or.inl ⟨listening, serves, serves⟩)
  | accept place =>
      rw [place]
      exact Or.inr (Or.inl ⟨rfl, rfl, rfl⟩)
  | waitForNewLeaderMsg place => exact Or.inr (Or.inr ⟨_, _, rfl⟩)
  | skipMyself place => exact (elsewhere place rfl).elim
  | leaderFound place _ => exact (elsewhere place rfl).elim
  | noLeaderThere place _ => exact (elsewhere place rfl).elim
  | noLeaderFound place => exact (elsewhere place rfl).elim
  | startAsLeader place _ => exact (elsewhere place rfl).elim
  | followerReceives place _ _ => exact (elsewhere place rfl).elim
  | leaderLost place _ => exact (elsewhere place rfl).elim
  | sendOkMsg place _ => exact (elsewhere place rfl).elim
  | okMsgFailed place _ => exact (elsewhere place rfl).elim
  | waitForLeaderCrash place _ => exact (elsewhere place rfl).elim
  | handleLeaderCrash place _ => exact (elsewhere place rfl).elim
  | reconnect place => exact (elsewhere place rfl).elim
  | unreachable place => exact (elsewhere place rfl).elim
  | reconnected place => exact (elsewhere place rfl).elim
  | introduce place => exact (elsewhere place rfl).elim
  | introduceFailed place => exact (elsewhere place rfl).elim
  | pendingRequest place _ => exact (elsewhere place rfl).elim
  | notConnected place _ => exact (elsewhere place rfl).elim
  | completeRequest place _ => exact (elsewhere place rfl).elim
  | nothingPending place _ => exact (elsewhere place rfl).elim
  | greet place => exact (elsewhere place rfl).elim
  | sendPendingRequestMsg place _ => exact (elsewhere place rfl).elim

theorem Process.holds_or_greets {pr : Process} {k : Socket} {R : Role} (plays : pr.Plays k R) :
    (∃ p, pr.Holds p k) ∨ pr.main = .greet k := by
  cases plays with
  | follows place found => exact Or.inl ⟨_, Or.inl found⟩
  | answers place found => exact Or.inl ⟨_, Or.inl found⟩
  | greets place => exact Or.inr place
  | greeted place found => exact Or.inl ⟨_, Or.inl found⟩
  | introduces place => exact Or.inl ⟨_, Or.inr ⟨_, _, _, place⟩⟩
  | introduced place found => exact Or.inl ⟨_, Or.inl found⟩
  | asks place unread found => exact Or.inl ⟨_, Or.inl found⟩
  | asked place read found => exact Or.inl ⟨_, Or.inl found⟩
  | leads place found => exact Or.inl ⟨_, Or.inl found⟩

theorem Wired.owner_of_plays {s : World} (wired : Wired s) {i : ProcId} {k : Socket} {R : Role}
    (plays : (s.processes i).Plays k R) : k.connection < s.opened ∧ s.owner k = i := by
  rcases Process.holds_or_greets plays with ⟨p, holds⟩ | greets
  · obtain ⟨less, own, _⟩ := wired.held i p k holds
    exact ⟨less, own⟩
  · exact wired.greeting i k greets

theorem Wired.separated {s : World} (wired : Wired s) (i : ProcId) :
    (s.processes i).Separated := by
  intro p q k at_p at_q
  rw [← (wired.held i p k (Or.inl at_p)).2.2, ← (wired.held i q k (Or.inl at_q)).2.2]

/-- Where the main thread of a process goes when it does not accept. -/
def Process.Stays (pr next : Process) : Prop :=
  next.main = .stopped ∨ next.main = pr.main ∨
    (pr.main.listening = true → next.main.listening = true ∧ next.main.serves = true ∧
      pr.main.serves = true)

section

variable {s s' : World} {i : ProcId} {next : Process} {k : Socket} {R : Role}

theorem World.Plays.here (rep : s.Replaces s' i next) (own : s.owner k = i)
    (unqueued : k ∉ s.backlog i) (plays : s'.Plays k R) : next.Plays k R := by
  have process : s'.processes (s'.owner k) = next := by
    rw [rep.owner, own, rep.processes, Function.update_self]
  have waiting : k ∉ s'.backlog (s'.owner k) := by
    rw [rep.owner, rep.backlog, own]
    exact unqueued
  cases plays with
  | process plays => exact process ▸ plays
  | queued waits serves => exact absurd waits waiting
  | heard waits place => exact absurd waits waiting

theorem World.Plays.back (rep : s.Replaces s' i next)
    (closed : (s.processes i).main.listening = false → s.backlog i = [])
    (stays : (s.processes i).Stays next)
    (back : s.owner k = i → ∀ R, next.Plays k R → (s.processes i).Plays k R)
    (plays : s'.Plays k R) : s.Plays k R := by
  by_cases own : s.owner k = i
  · have process : s'.processes (s'.owner k) = next := by
      rw [rep.owner, own, rep.processes, Function.update_self]
    have backlog : s'.backlog (s'.owner k) = s.backlog (s.owner k) := by
      rw [rep.owner, rep.backlog]
    have listening : k ∈ s.backlog (s.owner k) → (s.processes i).main.listening = true := by
      intro waits
      rw [own] at waits
      rw [← Bool.not_eq_false]
      intro deaf
      rw [closed deaf] at waits
      cases waits
    cases plays with
    | process plays =>
        apply Plays.process
        rw [own]
        exact back own R (process ▸ plays)
    | queued waits serves =>
        rw [backlog] at waits
        rw [process] at serves
        refine .queued waits ?_
        rw [own]
        rcases stays with stopped | same | goes
        · rw [stopped] at serves
          cases serves
        · rwa [same] at serves
        · exact (goes (listening waits)).2.2
    | heard waits place =>
        rw [backlog] at waits
        rw [process] at place
        refine .heard waits ?_
        rw [own]
        rcases stays with stopped | same | goes
        · rw [stopped] at place
          cases place
        · rwa [same] at place
        · have serves := (goes (listening waits)).2.1
          rw [place] at serves
          cases serves
  · have process : s'.processes (s'.owner k) = s.processes (s.owner k) := by
      rw [rep.owner, rep.processes, Function.update_of_ne own]
    have backlog : s'.backlog (s'.owner k) = s.backlog (s.owner k) := by
      rw [rep.owner, rep.backlog]
    cases plays with
    | process plays => exact .process (process ▸ plays)
    | queued waits serves => exact .queued (backlog ▸ waits) (process ▸ serves)
    | heard waits place => exact .heard (backlog ▸ waits) (process ▸ place)

namespace InSession

theorem not_queued (h : InSession s) (plays : (s.processes i).Plays k R) :
    k ∉ s.backlog i := by
  rcases Process.holds_or_greets plays with ⟨p, holds⟩ | greets
  · intro waits
    exact h.unused i p k waits holds
  · have running : (s.processes i).running = true := by
      unfold Process.running
      rw [greets]
      rfl
    rw [h.closed i running (by rw [greets]; rfl)]
    exact List.not_mem_nil

/-- What is left to show after a step without a new connection: that the sessions go on. -/
theorem replace (h : InSession s) (rep : s.Replaces s' i next) (tidy : next.Tidy)
    (closed : (s.processes i).main.listening = false → s.backlog i = [])
    (stays : (s.processes i).Stays next)
    (holds : ∀ p k, next.Holds p k → (s.processes i).Holds p k)
    (session : ∀ k : Socket, k.connection < s.opened →
      Session Joint (s'.Plays k) (s'.Plays k.peer) (s'.inbox k) (s'.inbox k.peer)) :
    InSession s' where
  tidy := by
    intro j
    rw [rep.processes, Function.update_apply]
    split
    · exact tidy
    · exact h.tidy j
  closed := by
    intro j running deaf
    rw [rep.processes, Function.update_apply] at running deaf
    rw [rep.backlog]
    split at running
    · rename_i here
      rw [if_pos here] at deaf
      rw [here]
      apply closed
      rcases stays with stopped | same | goes
      · unfold Process.running at running
        rw [stopped] at running
        cases running
      · rwa [← same]
      · rw [← Bool.not_eq_true]
        intro listening
        rw [(goes listening).1] at deaf
        cases deaf
    · rename_i other
      rw [if_neg other] at deaf
      exact h.closed j running deaf
  queue := by
    rw [rep.backlog]
    exact h.queue
  unused := by
    intro j p k waits
    rw [rep.backlog] at waits
    rw [rep.processes, Function.update_apply]
    split
    · rename_i here
      rw [here] at waits
      exact fun held => h.unused i p k waits (holds p k held)
    · exact h.unused j p k waits
  session := by
    rw [rep.opened]
    exact session

/-- A step that takes up no role and puts nothing on the way. -/
theorem quiet (h : InSession s) (rep : s.Replaces s' i next) (tidy : next.Tidy)
    (closed : (s.processes i).main.listening = false → s.backlog i = [])
    (stays : (s.processes i).Stays next)
    (holds : ∀ p k, next.Holds p k → (s.processes i).Holds p k) (inbox : s'.inbox = s.inbox)
    (back : ∀ k R, next.Plays k R → (s.processes i).Plays k R) : InSession s' := by
  refine h.replace rep tidy closed stays holds fun k less => ?_
  rw [inbox]
  exact (h.session k less).leave (fun R => .back rep closed stays fun _ R => back k R)
    (fun R => .back rep closed stays fun _ R => back k.peer R)

/-- A step that touches one connection. -/
theorem touch (h : InSession s) (rep : s.Replaces s' i next) (tidy : next.Tidy)
    (closed : (s.processes i).main.listening = false → s.backlog i = [])
    (stays : (s.processes i).Stays next)
    (holds : ∀ p k, next.Holds p k → (s.processes i).Holds p k) {client : Socket}
    (inbox : ∀ k, k ≠ client → k ≠ client.peer → s'.inbox k = s.inbox k)
    (back : ∀ k, k ≠ client → ∀ R, next.Plays k R → (s.processes i).Plays k R)
    (touched : (∀ R, s'.Plays client.peer R → s.Plays client.peer R) →
      Session Joint (s'.Plays client) (s'.Plays client.peer) (s'.inbox client)
        (s'.inbox client.peer)) : InSession s' := by
  have plays_back : ∀ k, k ≠ client → ∀ R, s'.Plays k R → s.Plays k R := by
    intro k apart R
    exact .back rep closed stays fun _ => back k apart
  have here := touched (plays_back client.peer client.peer_ne)
  refine h.replace rep tidy closed stays holds fun k less => ?_
  by_cases same : k = client
  · rw [same]
    exact here
  · by_cases same' : k = client.peer
    · rw [same', Socket.peer_peer]
      exact here.symm
    · have apart : k.peer ≠ client := by
        rintro rfl
        exact same' k.peer_peer.symm
      have apart' : k.peer ≠ client.peer := fun equal => same (Socket.peer_injective equal)
      rw [inbox k same same', inbox k.peer apart apart']
      exact (h.session k less).leave (plays_back k same) (plays_back k.peer apart)

end InSession

end

/-! ## The steps -/

theorem ThreadStep.stays {pr next : Process} {t : Thread} {label : Label}
    (step : ThreadStep pr t label next) (tidy : pr.Tidy)
    (notAccepted : ∀ k p, label ≠ .accepted true k p) : pr.Stays next := by
  by_cases listening : pr.main.listening = true
  · rcases step.listens tidy listening with stopped | goes | ⟨k, p, accepted⟩
    · exact Or.inl stopped
    · exact Or.inr (Or.inr fun _ => goes)
    · exact absurd accepted (notAccepted k p)
  · exact Or.inr (Or.inr fun now => absurd now listening)

theorem Process.plays_congr {pr next : Process} {k : Socket} {R : Role} (plays : next.Plays k R)
    (main : next.main = pr.main)
    (tcpClientMap : next.service.tcpClientMap = pr.service.tcpClientMap)
    (leaderPeerId : next.service.leaderPeerId = pr.service.leaderPeerId)
    (pendingRequest : next.service.pendingRequest = pr.service.pendingRequest)
    (owed : ∀ p, next.owed p = pr.owed p) : pr.Plays k R := by
  cases plays with
  | follows place found =>
      rw [tcpClientMap, leaderPeerId] at found
      exact .follows (main ▸ place) found
  | answers place found =>
      rw [tcpClientMap, leaderPeerId] at found
      rw [pendingRequest]
      exact .answers (main ▸ place) found
  | greets place => exact .greets (main ▸ place)
  | greeted place found =>
      rw [tcpClientMap, leaderPeerId] at found
      exact .greeted (main ▸ place) found
  | introduces place => exact .introduces (main ▸ place)
  | introduced place found => exact .introduced (main ▸ place) (tcpClientMap ▸ found)
  | asks place unread found => exact .asks (main ▸ place) unread (tcpClientMap ▸ found)
  | asked place read found => exact .asked (main ▸ place) read (tcpClientMap ▸ found)
  | leads place found =>
      rw [owed]
      exact .leads (main ▸ place) (tcpClientMap ▸ found)

/-- A tick leaves the roles alone. -/
theorem Process.plays_tick {pr : Process} {order : List PeerId} (idle : pr.detector = none)
    {k : Socket} {R : Role} (plays : (pr.tick order).Plays k R) : pr.Plays k R := by
  have called : (pr.tick order).detector = none ∨
      ∃ p, (pr.tick order).detector = some (.call p .DEL) := by
    unfold tick
    dsimp only
    split
    · unfold handlePeerFailure
      split
      · exact Or.inr ⟨_, rfl⟩
      · split
        · exact Or.inl idle
        · exact Or.inl idle
    · exact Or.inl idle
  obtain ⟨leaderCrashed, detector, heartBeats, suspect, same⟩ := pr.tick_eq order
  rw [same] at plays called
  refine plays_congr plays rfl rfl rfl rfl fun p => ?_
  apply owed_congr
  intro t
  cases t with
  | main => rfl
  | detector =>
      have before : pr.owedBy p .detector = [] := by
        apply owedBy_of_operation
        intro operation place
        change pr.detector = _ at place
        rw [idle] at place
        cases place
      rw [before]
      apply owedBy_of_operation
      intro operation place
      change detector = _ at place
      rcases called with none | ⟨q, call⟩
      · change detector = Option.none at none
        rw [none] at place
        cases place
      · change detector = some _ at call
        rw [call] at place
        cases place
        rfl

/-- What a thread step that does not connect or accept does to what its process holds. -/
theorem ThreadStep.holds_back {pr next : Process} {t : Thread} {label : Label}
    (step : ThreadStep pr t label next) (notConnected : ∀ p k, label ≠ .connected p k)
    (notAccepted : ∀ close k p, label ≠ .accepted close k p) :
    ∀ p k, next.Holds p k → pr.Holds p k := by
  intro p k holds
  rcases step.holds holds with before | new | ⟨close, new⟩
  · exact before
  · exact absurd new (notConnected p k)
  · exact absurd new (notAccepted close k p)

/-- A thread that reads waits there, for what its role expects. -/
def Process.Awaits (pr : Process) (t : Thread) (client : Socket) : Prop :=
  ∃ R, pr.Plays client R ∧ R.awaits ∧ ∀ m R₂, Reads R m R₂ → pr.expects t m = true

section

variable {pr : Process} {t : Thread} {client : Socket} {received : Msg → Process} {lost : Process}

theorem Process.awaits_of_operation (sound : pr.Sound) (tidy : pr.Tidy) {operation : Operation}
    (place : pr.operation t = some operation)
    (eff : pr.operationEffect t operation = .receive client received lost) :
    pr.Awaits t client := by
  unfold operationEffect sendTo at eff
  split at eff
  · cases eff
  · split at eff <;> cases eff
  · split at eff <;> cases eff
  · cases eff
  · rename_i requestMsg p rest
    split at eff
    · rename_i found
      cases eff
      have owed : pr.owed p = [requestMsg.requestId] := by
        rw [sound.owed_eq place rfl]
        exact if_pos List.mem_cons_self
      refine ⟨_, .leads (tidy.rules place) found, ⟨_, owed⟩, ?_⟩
      intro m R₂ reads
      unfold expects
      rw [place]
      rw [owed] at reads
      generalize expected : requestMsg.requestId = requestId at reads
      cases reads with
      | ok m => exact decide_eq_true expected.symm
    · cases eff
  · cases eff
  · split at eff <;> cases eff
  · cases eff
  · split at eff <;> cases eff
  · split at eff <;> cases eff
  · cases eff

theorem Process.awaits_of_receive (sound : pr.Sound) (tidy : pr.Tidy)
    (eff : pr.effect t = .receive client received lost) : pr.Awaits t client := by
  cases t with
  | detector =>
      unfold effect at eff
      dsimp only at eff
      split at eff
      · rename_i place
        exact awaits_of_operation sound tidy place eff
      · cases eff
  | main =>
      change pr.mainEffect = _ at eff
      unfold mainEffect sendToLeader at eff
      split at eff
      · split at eff <;> cases eff
      · cases eff
      · split at eff <;> cases eff
      · cases eff
      · rename_i place
        exact awaits_of_operation sound tidy (by rw [operation, place]) eff
      · rename_i place
        split at eff
        · rename_i found
          split at eff
          · cases eff
          · cases eff
            refine ⟨_, .follows place found, rfl, ?_⟩
            intro m R₂ reads
            unfold expects operation
            dsimp only
            rw [place]
            cases reads with
            | request m => rfl
            | newView m => rfl
        · cases eff
      · split at eff <;> cases eff
      · split at eff <;> cases eff
      · split at eff <;> cases eff
      · cases eff
      · cases eff
      · cases eff
      · rename_i place
        split at eff
        · rename_i found
          cases eff
          refine ⟨_, .asks place List.mem_cons_self found, trivial, ?_⟩
          intro m R₂ reads
          unfold expects operation
          dsimp only
          rw [place]
          cases reads with
          | pendingRequest m => rfl
        · cases eff
      · split at eff <;> cases eff
      · rename_i place
        exact awaits_of_operation sound tidy (by rw [operation, place]) eff
      · cases eff
      · rename_i place
        cases eff
        refine ⟨_, .greets place, trivial, ?_⟩
        intro m R₂ reads
        unfold expects operation
        dsimp only
        rw [place]
        cases reads with
        | newLeader m => rfl
      · split at eff <;> cases eff
      · cases eff

end

/-- A takeover in turn connects to nobody who serves. -/
theorem InTurn.reconnects {s : World} {i j : ProcId} {t : Thread} {peer : PeerId} {k : Socket}
    {next : Process} (turn : InTurn s (.run i t))
    (step : ThreadStep (s.processes i) t (.connected peer k) next)
    (known : j < s.started)
    (listening : (s.processes j).me = peer ∧ (s.processes j).main.listening = true)
    (reconnects : (s.processes i).main.reconnects = true) :
    (s.processes j).main.serves = false := by
  cases step with
  | dies fatal => exact fatal.elim
  | leaderFound place _ =>
      rw [place] at reconnects
      cases reconnects
  | reconnect place =>
      have nobody : s.reachesLeader i = false := turn
      unfold World.reachesLeader at nobody
      rw [place] at nobody
      rw [List.any_eq_false] at nobody
      have listens : s.listens peer j = true := by
        rw [World.listens, Bool.and_eq_true, decide_eq_true_iff]
        exact listening
      have both := nobody j (List.mem_range.mpr known)
      rw [listens, Bool.true_and] at both
      exact Bool.eq_false_iff.mpr both

/-! ## A new connection -/

section

variable {s : World} {i j : ProcId} {next : Process} {k : Socket} {R : Role}

theorem World.backlog_openConnection (l : ProcId) :
    ((s.openConnection i j).setProcess i next).backlog l =
      if l = j then s.backlog j ++ [s.nextSocket.peer] else s.backlog l :=
  Function.update_apply _ _ _ _

theorem World.inbox_openConnection (old : k.connection < s.opened) :
    (s.openConnection i j).inbox k = s.inbox k := by
  obtain ⟨notNext, notPeer⟩ := Wired.next_ne old
  unfold openConnection
  dsimp only
  rw [Function.update_of_ne notPeer, Function.update_of_ne notNext]

theorem World.inbox_openConnection_next (i j : ProcId) :
    (s.openConnection i j).inbox s.nextSocket = [] ∧
      (s.openConnection i j).inbox s.nextSocket.peer = [] := by
  unfold openConnection
  dsimp only
  constructor
  · rw [Function.update_of_ne (Socket.peer_ne _).symm, Function.update_self]
  · rw [Function.update_self]

theorem World.mem_backlog_openConnection {l : ProcId}
    (waits : k ∈ ((s.openConnection i j).setProcess i next).backlog l) :
    k ∈ s.backlog l ∨ l = j ∧ k = s.nextSocket.peer := by
  rw [backlog_openConnection] at waits
  split at waits
  · rename_i there
    rw [there]
    rcases List.mem_append.mp waits with before | new
    · exact Or.inl before
    · exact Or.inr ⟨rfl, List.mem_singleton.mp new⟩
  · exact Or.inl waits

/-- The older connections. -/
theorem World.Plays.before (alone : s.backlog i = []) (old : k.connection < s.opened)
    (back : ∀ R, next.Plays k R → (s.processes i).Plays k R)
    (plays : ((s.openConnection i j).setProcess i next).Plays k R) : s.Plays k R := by
  have same : ((s.openConnection i j).setProcess i next).owner k = s.owner k :=
    Wired.owner_openConnection old
  have queue : k ∈ ((s.openConnection i j).setProcess i next).backlog (s.owner k) →
      k ∈ s.backlog (s.owner k) ∧
        ((s.openConnection i j).setProcess i next).processes (s.owner k) =
          s.processes (s.owner k) := by
    intro waits
    rcases mem_backlog_openConnection waits with before | ⟨_, new⟩
    · refine ⟨before, Function.update_of_ne ?_ _ _⟩
      intro here
      rw [here, alone] at before
      cases before
    · exact absurd new (Wired.next_ne old).2
  cases plays with
  | process plays =>
      apply Plays.process
      change (Function.update s.processes i next _).Plays k R at plays
      rw [same, Function.update_apply] at plays
      split at plays
      · rename_i here
        rw [here]
        exact back R plays
      · exact plays
  | queued waits serves =>
      rw [same] at waits serves
      obtain ⟨waits, process⟩ := queue waits
      exact .queued waits (process ▸ serves)
  | heard waits place =>
      rw [same] at waits place
      obtain ⟨waits, process⟩ := queue waits
      exact .heard waits (process ▸ place)

/-- The end that has connected. -/
theorem World.Plays.connector (alone : s.backlog i = []) (apart : j ≠ i)
    (plays : ((s.openConnection i j).setProcess i next).Plays s.nextSocket R) :
    next.Plays s.nextSocket R := by
  have own : ((s.openConnection i j).setProcess i next).owner s.nextSocket = i :=
    (Wired.owner_openConnection_next i j).1
  have process : ((s.openConnection i j).setProcess i next).processes i = next :=
    Function.update_self _ _ _
  have unqueued : s.nextSocket ∉ ((s.openConnection i j).setProcess i next).backlog i := by
    rw [backlog_openConnection, if_neg apart.symm, alone]
    exact List.not_mem_nil
  cases plays with
  | process plays =>
      rw [own, process] at plays
      exact plays
  | queued waits serves =>
      rw [own] at waits
      exact absurd waits unqueued
  | heard waits place =>
      rw [own] at waits
      exact absurd waits unqueued

/-- The end that waits to be accepted. -/
theorem World.Plays.listener (wired : Wired s) (apart : j ≠ i)
    (plays : ((s.openConnection i j).setProcess i next).Plays s.nextSocket.peer R) :
    R = .leads [] ∧ (s.processes j).main.serves = true ∨
      R = .greets ∧ (s.processes j).main = .waitForNewLeaderMsg := by
  have own : ((s.openConnection i j).setProcess i next).owner s.nextSocket.peer = j :=
    (Wired.owner_openConnection_next i j).2
  have process : ((s.openConnection i j).setProcess i next).processes j = s.processes j :=
    Function.update_of_ne apart _ _
  cases plays with
  | process plays =>
      rw [own, process] at plays
      exact absurd (wired.owner_of_plays plays).1 (Nat.lt_irrefl _)
  | queued waits serves =>
      rw [own, process] at serves
      exact Or.inl ⟨rfl, serves⟩
  | heard waits place =>
      rw [own, process] at place
      exact Or.inr ⟨rfl, place⟩

end

namespace InSession

variable {s s' : World} {i : ProcId} {t : Thread} {next : Process} {client : Socket} {m : Msg}

theorem silent (h : InSession s) (wired : Wired s) {label : Label}
    (running : (s.processes i).running = true) (step : ThreadStep (s.processes i) t label next)
    (quiet : label.quiet) (rep : s.Replaces s' i next) (inbox : s'.inbox = s.inbox) :
    InSession s' := by
  have apart : (∀ p k, label ≠ .connected p k) ∧ ∀ close k p, label ≠ .accepted close k p := by
    cases label
    case connected => exact quiet.elim
    case accepted => exact quiet.elim
    all_goals exact ⟨(fun _ _ same => by cases same), fun _ _ _ same => by cases same⟩
  exact h.quiet rep (step.tidy (wired.sound i) (h.tidy i)) (h.closed i running)
    (step.stays (h.tidy i) (apart.2 true)) (step.holds_back apart.1 apart.2) inbox
    fun k R plays => step.plays_quiet quiet (wired.sound i) (h.tidy i) plays

theorem sent (h : InSession s) (wired : Wired s) (running : (s.processes i).running = true)
    (step : ThreadStep (s.processes i) t (.sent client m) next) :
    InSession ((s.deliver client.peer m).setProcess i next) := by
  obtain ⟨R, R₂, sends, plays, becomes, others⟩ :=
    step.plays_sent (wired.sound i) (h.tidy i) (wired.separated i)
  obtain ⟨less, own⟩ := wired.owner_of_plays plays
  have rep : s.Replaces ((s.deliver client.peer m).setProcess i next) i next :=
    ⟨rfl, rfl, rfl, rfl⟩
  refine h.touch rep (step.tidy (wired.sound i) (h.tidy i)) (h.closed i running)
    (step.stays (h.tidy i) fun _ _ same => by cases same)
    (step.holds_back (fun _ _ same => by cases same) fun _ _ _ same => by cases same) ?_ others ?_
  · intro k _ apart
    exact Function.update_of_ne apart _ _
  · intro peer_back
    have here : (s.deliver client.peer m).inbox client = s.inbox client :=
      Function.update_of_ne client.peer_ne.symm _ _
    have there : (s.deliver client.peer m).inbox client.peer = s.inbox client.peer ++ [m] :=
      Function.update_self _ _ _
    change Session Joint _ _ ((s.deliver client.peer m).inbox client)
      ((s.deliver client.peer m).inbox client.peer)
    rw [here, there]
    have before : s.Plays client R := .process (own ▸ plays)
    have after : ∀ Q, ((s.deliver client.peer m).setProcess i next).Plays client Q → Q = R₂ :=
      fun Q now => becomes Q (now.here rep own (h.not_queued plays))
    exact ((h.session client less).leave (fun _ now => now) peer_back).step before after
      (fun _ joint => joint.send_first sends) fun _ joint => joint.send_second sends

theorem received (h : InSession s) (wired : Wired s) (running : (s.processes i).running = true)
    {rest : List Msg} (head : s.inbox client = m :: rest)
    (step : ThreadStep (s.processes i) t (.received client m) next) {R : Role}
    (plays : (s.processes i).Plays client R) :
    InSession ({ s with inbox := Function.update s.inbox client rest }.setProcess i next) := by
  obtain ⟨less, own⟩ := wired.owner_of_plays plays
  have rep : s.Replaces ({ s with inbox := Function.update s.inbox client rest }.setProcess i next)
      i next := ⟨rfl, rfl, rfl, rfl⟩
  have unqueued := h.not_queued plays
  have before := h.session client less
  rw [head] at before
  have joined (others : ∀ k, k ≠ client → ∀ Q, next.Plays k Q → (s.processes i).Plays k Q)
      (touched : Session Joint (next.Plays client) (s.Plays client.peer) rest
        (s.inbox client.peer)) :
      InSession ({ s with inbox := Function.update s.inbox client rest }.setProcess i next) := by
    refine h.touch rep (step.tidy (wired.sound i) (h.tidy i)) (h.closed i running)
      (step.stays (h.tidy i) fun _ _ same => by cases same)
      (step.holds_back (fun _ _ same => by cases same) fun _ _ _ same => by cases same)
      ?_ others ?_
    · intro k apart _
      exact Function.update_of_ne apart _ _
    · intro peer_back
      have here : Function.update s.inbox client rest client = rest := Function.update_self _ _ _
      have there : Function.update s.inbox client rest client.peer = s.inbox client.peer :=
        Function.update_of_ne client.peer_ne _ _
      change Session Joint _ _ (Function.update s.inbox client rest client)
        (Function.update s.inbox client rest client.peer)
      rw [here, there]
      exact touched.leave (fun Q now => now.here rep own unqueued) peer_back
  rcases step.plays_received (wired.sound i) (h.tidy i) (wired.separated i) with
    rfl | ⟨R, R₂, reads, plays, becomes, others⟩
  · have none {k : Socket} {Q : Role} : ¬ (s.processes i).terminate.Plays k Q :=
      Process.not_plays_of_isolated rfl
    exact joined (fun _ _ _ now => (none now).elim) (before.quit (fun _ => none)
      (fun _ _ joint => joint.drop_first) fun _ _ joint => joint.drop_second)
  · have playing : s.Plays client R := .process (own ▸ plays)
    exact joined others (before.step playing becomes (fun _ joint => joint.read_first reads)
      fun _ joint => joint.read_second reads)

theorem connected (h : InSession s) (wired : Wired s) (running : (s.processes i).running = true)
    {peer : PeerId} {j : ProcId}
    (listens : (s.processes j).me = peer ∧ (s.processes j).main.listening = true)
    (step : ThreadStep (s.processes i) t (.connected peer s.nextSocket) next)
    (turn : (s.processes i).main.reconnects = true → (s.processes j).main.serves = false) :
    InSession ((s.openConnection i j).setProcess i next) := by
  have apart : j ≠ i := by
    rintro rfl
    exact step.connected_ne (wired.sound j) listens.1.symm
  have unheld : ∀ l p k, (s.processes l).Holds p k → k ≠ s.nextSocket ∧ k ≠ s.nextSocket.peer :=
    fun l p k holds => Wired.next_ne (wired.held l p k holds).1
  have alone : s.backlog i = [] := by
    apply h.closed i running
    cases step with
    | dies fatal => exact fatal.elim
    | leaderFound place _ => rw [place]; rfl
    | reconnect place => rw [place]; rfl
  obtain ⟨joins, elsewhere⟩ := step.plays_connected (wired.sound i) fun p found =>
    (unheld i p _ (Or.inl found)).1 rfl
  have before : ∀ k : Socket, k.connection < s.opened → ∀ R,
      ((s.openConnection i j).setProcess i next).Plays k R → s.Plays k R := fun k old R =>
    .before alone old (elsewhere k (Wired.next_ne old).1)
  have process_other : ∀ l, l ≠ i →
      ((s.openConnection i j).setProcess i next).processes l = s.processes l := fun l other =>
    Function.update_of_ne other _ _
  have process_here : ((s.openConnection i j).setProcess i next).processes i = next :=
    Function.update_self _ _ _
  constructor
  · intro l
    by_cases here : l = i
    · rw [here, process_here]
      exact step.tidy (wired.sound i) (h.tidy i)
    · rw [process_other l here]
      exact h.tidy l
  · intro l up deaf
    rw [backlog_openConnection]
    by_cases here : l = i
    · rw [here, if_neg apart.symm]
      exact alone
    · rw [process_other l here] at up deaf
      split
      · rename_i there
        rw [there, listens.2] at deaf
        cases deaf
      · exact h.closed l up deaf
  · intro l
    rw [backlog_openConnection]
    split
    · rw [List.nodup_append]
      refine ⟨h.queue j, List.nodup_singleton _, ?_⟩
      intro k waits k' new same
      rw [List.mem_singleton.mp new] at same
      exact (Wired.next_ne (wired.waiting j k waits).1).2 same
    · exact h.queue l
  · intro l p k waits
    by_cases here : l = i
    · rw [here, backlog_openConnection, if_neg apart.symm, alone] at waits
      cases waits
    · rw [process_other l here]
      rcases mem_backlog_openConnection waits with before | ⟨_, new⟩
      · exact h.unused l p k before
      · exact fun holds => (unheld l p k holds).2 new
  · have fresh : Session Joint (((s.openConnection i j).setProcess i next).Plays s.nextSocket)
        (((s.openConnection i j).setProcess i next).Plays s.nextSocket.peer) [] [] := by
      have here : ∀ R, ((s.openConnection i j).setProcess i next).Plays s.nextSocket R →
          R = .member [] ∧ (s.processes i).main.reconnects = false ∨
            R = .introduces ∧ (s.processes i).main.reconnects = true := fun R plays =>
        joins R (plays.connector alone apart)
      have there : ∀ R, ((s.openConnection i j).setProcess i next).Plays s.nextSocket.peer R →
          R = .leads [] ∧ (s.processes j).main.serves = true ∨
            R = .greets ∧ (s.processes j).main = .waitForNewLeaderMsg := fun R plays =>
        plays.listener wired apart
      cases reconnects : (s.processes i).main.reconnects with
      | true =>
          have waits := turn reconnects
          refine ⟨.introduces, .greets, ?_, ?_, Or.inr .connected⟩
          · intro R plays
            rcases here R plays with ⟨_, searches⟩ | ⟨same, _⟩
            · rw [reconnects] at searches
              cases searches
            · exact same
          · intro R plays
            rcases there R plays with ⟨_, serves⟩ | ⟨same, _⟩
            · rw [waits] at serves
              cases serves
            · exact same
      | false =>
          have member : ∀ R, ((s.openConnection i j).setProcess i next).Plays s.nextSocket R →
              R = .member [] := by
            intro R plays
            rcases here R plays with ⟨same, _⟩ | ⟨_, now⟩
            · exact same
            · rw [reconnects] at now
              cases now
          cases serves : (s.processes j).main.serves with
          | true =>
              refine ⟨.member [], .leads [], member, ?_, Or.inl (.joined ?_ ?_ (.refl []))⟩
              · intro R plays
                rcases there R plays with ⟨same, _⟩ | ⟨_, place⟩
                · exact same
                · rw [place] at serves
                  cases serves
              · exact fun _ mem => absurd mem List.not_mem_nil
              · exact fun _ mem => absurd mem List.not_mem_nil
          | false =>
              refine ⟨.member [], .greets, member, ?_, Or.inr .mistaken⟩
              intro R plays
              rcases there R plays with ⟨_, now⟩ | ⟨same, _⟩
              · rw [serves] at now
                cases now
              · exact same
    obtain ⟨empty, empty'⟩ := inbox_openConnection_next (s := s) i j
    intro k less
    rcases Wired.socket_cases less with old | rfl | rfl
    · change Session Joint _ _ ((s.openConnection i j).inbox k)
        ((s.openConnection i j).inbox k.peer)
      rw [inbox_openConnection old, inbox_openConnection (k := k.peer) old]
      exact (h.session k old).leave (before k old) (before k.peer old)
    · change Session Joint _ _ ((s.openConnection i j).inbox _)
        ((s.openConnection i j).inbox _)
      rw [empty, empty']
      exact fresh
    · change Session Joint _ _ ((s.openConnection i j).inbox _)
        ((s.openConnection i j).inbox _)
      rw [Socket.peer_peer, empty, empty']
      exact fresh.symm

theorem accepted (h : InSession s) (wired : Wired s) {close : Bool} {rest : List Socket}
    {peer : PeerId} (head : s.backlog i = client :: rest)
    (step : ThreadStep (s.processes i) t (.accepted close client peer) next) :
    InSession ((s.acceptConnection i close rest).setProcess i next) := by
  have waits : client ∈ s.backlog i := by
    rw [head]
    exact List.mem_cons_self
  obtain ⟨takes, elsewhere⟩ := step.plays_accepted (h.tidy i) fun p found =>
    h.unused i p client waits (Or.inl found)
  have nodup := h.queue i
  rw [head, List.nodup_cons] at nodup
  -- where the process was, and where it is
  have place : (s.processes i).main = .accept ∧ close = false ∧
        next.main = .addPeer (.call peer .ADD) ∨
      (s.processes i).main = .waitForNewLeaderMsg ∧ close = true ∧
        next.main = .greet client := by
    cases step with
    | dies fatal => exact fatal.elim
    | accept place => exact Or.inl ⟨place, rfl, rfl⟩
    | waitForNewLeaderMsg place => exact Or.inr ⟨place, rfl, rfl⟩
  have backlog : ∀ l k, k ∈ ((s.acceptConnection i close rest).setProcess i next).backlog l →
      k ∈ s.backlog l ∧ (l = i → close = false ∧ k ∈ rest) := by
    intro l k waits
    change k ∈ Function.update s.backlog i (if close then [] else rest) l at waits
    rw [Function.update_apply] at waits
    split at waits
    · rename_i here
      rw [here, head]
      split at waits
      · cases waits
      · rename_i opened
        exact ⟨List.mem_cons_of_mem _ waits, fun _ => ⟨Bool.eq_false_iff.mpr opened, waits⟩⟩
    · rename_i other
      exact ⟨waits, fun here => absurd here other⟩
  have process_other : ∀ l, l ≠ i →
      ((s.acceptConnection i close rest).setProcess i next).processes l = s.processes l :=
    fun l other => Function.update_of_ne other _ _
  have process_here : ((s.acceptConnection i close rest).setProcess i next).processes i = next :=
    Function.update_self _ _ _
  constructor
  · intro l
    by_cases here : l = i
    · rw [here, process_here]
      exact step.tidy (wired.sound i) (h.tidy i)
    · rw [process_other l here]
      exact h.tidy l
  · intro l up deaf
    by_cases here : l = i
    · rw [here, process_here] at deaf
      rcases place with ⟨_, _, adds⟩ | ⟨_, closes, _⟩
      · rw [adds] at deaf
        cases deaf
      · change Function.update s.backlog i (if close then [] else rest) l = []
        rw [here, Function.update_self, closes]
        rfl
    · rw [process_other l here] at up deaf
      change Function.update s.backlog i (if close then [] else rest) l = []
      rw [Function.update_of_ne here]
      exact h.closed l up deaf
  · intro l
    change (Function.update s.backlog i (if close then [] else rest) l).Nodup
    rw [Function.update_apply]
    split
    · split
      · exact List.nodup_nil
      · exact nodup.2
    · exact h.queue l
  · intro l p k waits
    obtain ⟨before, mine⟩ := backlog l k waits
    by_cases here : l = i
    · rw [here, process_here]
      intro holds
      have later := (mine here).2
      rcases step.holds holds with held | new | ⟨_, new⟩
      · exact h.unused i p k (here ▸ before) held
      · cases new
      · cases new
        exact nodup.1 later
    · rw [process_other l here]
      exact h.unused l p k before
  · have back : ∀ k R, ((s.acceptConnection i close rest).setProcess i next).Plays k R →
        s.Plays k R := by
      intro k R plays
      have moved : ∀ l, ((s.acceptConnection i close rest).setProcess i next).processes l =
          if l = i then next else s.processes l := fun l => Function.update_apply _ _ _ _
      have own : ((s.acceptConnection i close rest).setProcess i next).owner = s.owner := rfl
      cases plays with
      | process plays =>
          rw [moved, own] at plays
          split at plays
          · rename_i here
            by_cases same : k = client
            · rw [same] at here plays ⊢
              rcases takes R plays with ⟨rfl, accepts⟩ | ⟨rfl, waits'⟩
              · exact .queued (here ▸ waits) (by rw [here, accepts]; rfl)
              · exact .heard (here ▸ waits) (by rw [here, waits'])
            · apply Plays.process
              rw [here]
              exact elsewhere k same R plays
          · exact .process plays
      | queued waits serves =>
          rw [own] at waits serves
          obtain ⟨before, mine⟩ := backlog _ k waits
          refine .queued before ?_
          rw [moved] at serves
          split at serves
          · rename_i here
            rcases place with ⟨accepts, _, _⟩ | ⟨_, _, greets⟩
            · rw [here, accepts]
              rfl
            · rw [greets] at serves
              cases serves
          · exact serves
      | heard waits place' =>
          rw [own] at waits place'
          obtain ⟨before, mine⟩ := backlog _ k waits
          refine .heard before ?_
          rw [moved] at place'
          split at place'
          · rename_i here
            rcases place with ⟨_, _, adds⟩ | ⟨_, _, greets⟩
            · rw [adds] at place'
              cases place'
            · rw [greets] at place'
              cases place'
          · exact place'
    intro k less
    exact (h.session k less).leave (back k) (back k.peer)

theorem tick (h : InSession s) {order : List PeerId}
    (running : (s.processes i).running = true) (idle : (s.processes i).detector = none)
    (turn : (s.processes i).startsDeletion order = true → (s.processes i).main.serves = true) :
    InSession (s.setProcess i ((s.processes i).tick order)) := by
  have rep : s.Replaces (s.setProcess i ((s.processes i).tick order)) i
      ((s.processes i).tick order) := ⟨rfl, rfl, rfl, rfl⟩
  refine h.quiet rep ((h.tidy i).tick turn) (h.closed i running) ?_ ?_ rfl
    fun k R => Process.plays_tick idle
  · obtain ⟨_, _, _, _, same⟩ := (s.processes i).tick_eq order
    rw [same]
    exact Or.inr (Or.inl rfl)
  · obtain ⟨_, _, _, _, same⟩ := (s.processes i).tick_eq order
    rw [same]
    exact fun p k holds => holds

theorem heartBeat (h : InSession s) (running : (s.processes i).running = true) (p : PeerId) :
    InSession (s.setProcess i ((s.processes i).heartBeat p)) := by
  have rep : s.Replaces (s.setProcess i ((s.processes i).heartBeat p)) i
      ((s.processes i).heartBeat p) := ⟨rfl, rfl, rfl, rfl⟩
  obtain ⟨deleting, reached, asking, addresses⟩ := h.tidy i
  exact h.quiet rep ⟨deleting, reached, asking, addresses⟩ (h.closed i running)
    (Or.inr (Or.inl rfl)) (fun _ _ holds => holds) rfl fun _ _ plays =>
      Process.plays_congr plays rfl rfl rfl rfl fun _ => rfl

theorem start (h : InSession s) (wired : Wired s) (p : PeerId) (hosts : List PeerId) :
    InSession { s.setProcess s.started { me := p, main := .findLeader hosts } with
      started := s.started + 1 } := by
  have rep : s.Replaces { s.setProcess s.started { me := p, main := .findLeader hosts } with
      started := s.started + 1 } s.started { me := p, main := .findLeader hosts } :=
    ⟨rfl, rfl, rfl, rfl⟩
  have unknown : (s.processes s.started).main = .stopped := by
    by_contra up
    exact Nat.lt_irrefl _ (wired.started s.started (decide_eq_true up))
  refine h.quiet rep ?_ ?_ ?_ ?_ rfl ?_
  · exact .of_quiet rfl rfl rfl fun _ _ same => by cases same
  · intro _
    rw [List.eq_nil_iff_forall_not_mem]
    intro k waits
    obtain ⟨less, own⟩ := wired.waiting s.started k waits
    exact Nat.ne_of_lt (wired.owners k less) own
  · refine Or.inr (Or.inr ?_)
    intro listening
    rw [unknown] at listening
    cases listening
  · intro q k holds
    rcases holds with found | ⟨_, _, _, main⟩
    · cases found
    · cases main
  · intro k R plays
    exact (Process.not_plays_of_isolated rfl plays).elim

/-- **The sessions go on** in every event in turn. -/
theorem step (h : InSession s) (wired : Wired s) {hosts : List PeerId} {e : Event}
    (turn : InTurn s e) {s' : World} (taken : s.step hosts e = some s') : InSession s' := by
  cases worldStep_of_step taken with
  | @start p => exact h.start wired p hosts
  | @crash i running =>
      have step : ThreadStep (s.processes i) .main (.silent []) (s.processes i).terminate :=
        .dies rfl
      exact h.silent wired running step trivial ⟨rfl, rfl, rfl, rfl⟩ rfl
  | @heartBeat i p running => exact h.heartBeat running p
  | tick running idle => exact h.tick running idle turn
  | silent running step => exact h.silent wired running step trivial ⟨rfl, rfl, rfl, rfl⟩ rfl
  | sent running step => exact h.sent wired running step
  | failed running _ step => exact h.silent wired running step trivial ⟨rfl, rfl, rfl, rfl⟩ rfl
  | @received i _ _ _ _ _ running head step reads =>
      obtain ⟨received, lost, eff⟩ := reads
      obtain ⟨R, plays, _⟩ := Process.awaits_of_receive (wired.sound i) (h.tidy i) eff
      exact h.received wired running head step plays
  | lost running _ _ step => exact h.silent wired running step trivial ⟨rfl, rfl, rfl, rfl⟩ rfl
  | connected running known listens step =>
      exact h.connected wired running listens step (turn.reconnects step known listens)
  | refused running _ step => exact h.silent wired running step trivial ⟨rfl, rfl, rfl, rfl⟩ rfl
  | accepted running head step => exact h.accepted wired head step

theorem init : InSession {} where
  tidy _ := .of_quiet rfl rfl rfl fun _ _ same => by cases same
  closed _ _ _ := rfl
  queue _ := List.nodup_nil
  unused _ _ _ waits := absurd waits List.not_mem_nil
  session _ less := absurd less (Nat.not_lt_zero _)

/-- What is in an inbox is what its process expects there. -/
theorem inStep (h : InSession s) (wired : Wired s) : s.InStep := by
  intro i t client received lost m rest _ eff head
  obtain ⟨R, plays, awaits, expects⟩ :=
    Process.awaits_of_receive (wired.sound i) (h.tidy i) eff
  obtain ⟨less, own⟩ := wired.owner_of_plays plays
  have session := h.session client less
  rw [head] at session
  have playing : s.Plays client R := .process (own ▸ plays)
  have readable : ∃ R₂, Reads R m R₂ := by
    apply session.holds playing
    · exact fun _ joint => joint.expected_first awaits
    · exact fun _ joint => joint.expected_second awaits
  obtain ⟨R₂, reads⟩ := readable
  exact expects m R₂ reads

end InSession

theorem inSession_of_inTurn {hosts : List PeerId} {s : World}
    (reach : Reach (World.step hosts) InTurn {} s) : InSession s := by
  have wired (s : World) (before : Reach (World.step hosts) InTurn {} s) : Wired s :=
    wired_of_reachable before.always
  exact reach.invariant_with wired .init fun _ _ _ wired h turn taken => h.step wired turn taken

/-- **Requests and replies stay in step.**  In every run in turn, whatever a thread is about to
read is what it expects. -/
theorem expected_of_inTurn {hosts : List PeerId} {s : World}
    (reach : Reach (World.step hosts) InTurn {} s) : s.InStep :=
  (inSession_of_inTurn reach).inStep (wired_of_reachable reach.always)

/-- Host 2 takes over; its predecessor was adding host 4, and host 3 has told it so. -/
def pendingReplyRun : List Event :=
  threeHostsRun ++
  [.start 4] ++ mainSteps 3 1 ++ mainSteps 0 5 ++ mainSteps 1 2 ++ mainSteps 2 2 ++
  [.crash 0] ++ mainSteps 1 1 ++ mainSteps 2 1 ++ detectRun 1 3 ++ detectRun 2 2 ++
  mainSteps 2 2 ++ mainSteps 1 4 ++ mainSteps 2 3 ++ mainSteps 1 1

theorem pendingReplyRun_through :
    (replay (World.step [1, 2, 3, 4, 5]) {} pendingReplyRun).isSome = true := by
  decide +kernel

theorem expected_of_inTurn_pendingReply :
    ((replay (World.step [1, 2, 3, 4, 5]) {} pendingReplyRun).get pendingReplyRun_through).InStep :=
  expected_of_inTurn (show Reach (World.step [1, 2, 3, 4, 5]) InTurn {} _ from
    .of_isSome (by decide +kernel) pendingReplyRun_through)

/-! ## Two takeovers

Host 1 leads hosts 2 and 3 and crashes.  Host 3 has had no heartbeat of host 2 yet, elects
itself and becomes the leader.  Then host 2 elects itself and connects to host 3, which takes
it for a new process. -/

/-- Process `i`, which knows of host 1 only, learns that it has crashed. -/
def detectLeaderRun (i : ProcId) : List Event :=
  [.heartBeat i 1, .tick i [1], .tick i [1], .tick i [1]]

def twoTakeoversRun : List Event :=
  threeHostsRun ++
  [.crash 0] ++ mainSteps 1 1 ++ mainSteps 2 1 ++
  detectLeaderRun 2 ++ mainSteps 2 8 ++ detectLeaderRun 1 ++ mainSteps 1 5 ++ mainSteps 2 9

theorem twoTakeoversRun_through :
    (replay (World.step [1, 2, 3, 4, 5]) {} twoTakeoversRun).isSome = true := by
  decide +kernel

def twoTakeoversState : World :=
  (replay (World.step [1, 2, 3, 4, 5]) {} twoTakeoversRun).get twoTakeoversRun_through

theorem Process.effect_waitForPendingRequestMsg {pr : Process} {peer : PeerId}
    {rest : List PeerId} {pendingRequestMsg : RequestMsg} {client : Socket}
    (place : pr.main = .waitForPendingRequestMsg (peer :: rest) pendingRequestMsg)
    (found : pr.service.tcpClientMap peer = some client) :
    ∃ received lost, pr.effect .main = .receive client received lost := by
  change ∃ received lost, pr.mainEffect = _
  unfold mainEffect
  rw [place]
  dsimp only
  rw [found]
  exact ⟨_, _, rfl⟩

/-- **A view for a leader.**  Host 2 waits for a pending request and is about to read a
`NewViewMsg`. -/
theorem leader_reads_view :
    ¬ ∀ (hosts : List PeerId) (s : World), Reach (World.step hosts) Always {} s → s.InStep := by
  intro always
  have reach : Reach (World.step [1, 2, 3, 4, 5]) Always {} twoTakeoversState :=
    .of_isSome (allowedAlong_always _ _) twoTakeoversRun_through
  have reads : ∃ received lost, (twoTakeoversState.processes 1).effect .main =
      .receive ⟨2, true⟩ received lost := by
    have place : (twoTakeoversState.processes 1).main =
        .waitForPendingRequestMsg [3] getDummyPendingRequestMsg := by
      decide +kernel
    have found : (twoTakeoversState.processes 1).service.tcpClientMap 3 = some ⟨2, true⟩ := by
      decide +kernel
    exact Process.effect_waitForPendingRequestMsg place found
  obtain ⟨received, lost, reads⟩ := reads
  have head : twoTakeoversState.inbox ⟨2, true⟩ = [.newView ⟨3, 4, [2, 3]⟩] := by
    decide +kernel
  have expected := always _ _ reach 1 .main _ received lost _ _ (by decide +kernel) reads head
  revert expected
  decide +kernel

end GroupComm.Lab2
