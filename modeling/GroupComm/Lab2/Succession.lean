import GroupComm.Lab2.Followers

/-!
# When the leader is gone

Between two leaders nobody is in an operation, and the outlooks of the followers stay as they are.
`Vacant` says what is left of the last request then, and `Asking` what the process that takes over
has heard of it: every answer is no request or this one, and who has answered holds what it has
said.

A takeover ends with a leader (`Vacant.chooses`), and so does the search of a process that finds no
leader and founds a group (`Vacant.founds`).
-/

namespace GroupComm.Lab2

open MembershipService World Transition Process

/-- The places of a process that takes over, up to its choice. -/
def MainState.takesOver : MainState → Bool
  | sendNewLeaderMsg _ _ _ => true
  | introduce _ _ _ _ _ => true
  | waitForPendingRequestMsg _ _ => true
  | _ => false

theorem MainState.commands_of_takesOver {place : MainState} (takesOver : place.takesOver = true) :
    place.commands = true := by
  revert takesOver
  cases place <;> simp [MainState.takesOver, MainState.commands]

/-- What process `T`, which takes over, has heard of request `r`. -/
structure Asking (exact : Prop) (T : ProcId) (r : RequestMsg) (s : World) : Prop where
  answers : ∀ p k m, (s.processes T).service.tcpClientMap p = some k →
    .request m ∈ s.inbox k → m.operationType ≠ .NOTHING → r.Same exact m
  /-- An answer on the way is what the follower holds. -/
  answered : ∀ i p k m, (s.processes T).service.tcpClientMap p = some k →
    (s.processes i).leaderClient = some k.peer → .request m ∈ s.inbox k →
      m = (s.outlook i).answer
  chosen : ∀ rest m, (s.processes T).main = .waitForPendingRequestMsg rest m →
    m.operationType ≠ .NOTHING → r.Same exact m
  /-- Who has answered and holds a request has been heard. -/
  heard : ∀ rest m, (s.processes T).main = .waitForPendingRequestMsg rest m → ∀ i p k, p ∉ rest →
    (s.processes T).service.tcpClientMap p = some k →
      (s.processes i).leaderClient = some k.peer → s.holdsRequest i = true →
        m.operationType ≠ .NOTHING

/-- Nobody leads; process `T` takes over, or has been the last to lead, and `r` is the request that
is left. -/
structure Vacant (exact : Prop) (T : ProcId) (r : RequestMsg) (s : World) : Prop where
  obeys : ∀ i ≠ T, (s.processes i).main.commands = false
  idle : ∀ i, (s.processes i).detector = none
  place : (s.processes T).main.takesOver = true ∨ (s.processes T).main = .stopped
  fits : ∀ i, (s.processes i).main.follows = true →
    (s.outlook i).Fits exact r (s.processes i).me
  asking : (s.processes T).main.takesOver = true → Asking exact T r s

/-! ## What is sent between two leaders -/

/-- A request that is sent outside `modifyGroupMembership` is the answer to a new leader. -/
theorem ThreadStep.sends_request {pr next : Process} {t : Thread} {k : Socket} {m : RequestMsg}
    (step : ThreadStep pr t (.sent k (.request m)) next) (outside : ∀ t, pr.operation t = none) :
    pr.main = .sendPendingRequestMsg ∧ pr.Plays k .answers ∧
      m = pr.service.createPendingRequestMsg := by
  cases step with
  | dies fatal => cases fatal
  | sendRequestMsg here _ =>
      rw [outside] at here
      cases here
  | sendPendingRequestMsg here found => exact ⟨here, .greeted here found, rfl⟩

/-- How the loop of `waitForPendingRequestMsg` goes on. -/
inductive Process.Hears (pr : Process) (label : Label) (rest : List PeerId) (m : RequestMsg) : Prop
  | reconnected (place : pr.main.reconnects = true) (all : rest = pr.main.reached.toList)
      (nothing : m.operationType = .NOTHING)
  | answer {peer client requestMsg m'}
      (place : pr.main = .waitForPendingRequestMsg (peer :: rest) m')
      (found : pr.service.tcpClientMap peer = some client)
      (read : label = .received client (.request requestMsg))
      (last : m = if requestMsg.operationType ≠ .NOTHING then requestMsg else m')
  | notConnected {peer} (place : pr.main = .waitForPendingRequestMsg (peer :: rest) m)
      (missing : pr.service.tcpClientMap peer = none)

/-- What a process that takes over does: it goes on, or makes its choice, or stops. -/
theorem ThreadStep.takes_over {pr next : Process} {t : Thread} {label : Label}
    (step : ThreadStep pr t label next) (takesOver : pr.main.takesOver = true)
    (outside : ∀ t, pr.operation t = none) :
    next.detector = none ∧ (next.main = .stopped ∨
      (next.main.takesOver = true ∧ (∀ p k, next.service.tcpClientMap p = some k →
        pr.service.tcpClientMap p = some k ∨ pr.Plays k .introduces) ∧
          ∀ rest m, next.main = .waitForPendingRequestMsg rest m → pr.Hears label rest m) ∨
      ∃ m created, pr.main = .waitForPendingRequestMsg [] m ∧ t = .main ∧
        label = .silent created ∧
          (m.operationType ≠ .NOTHING ∧
              next = { pr with main := .completeRequest (.call m.peerId m.operationType) } ∨
            m.operationType = .NOTHING ∧
              next = { pr.install with main := .completeRequest .sendNewViewMsg })) := by
  have idle : pr.detector = none := outside .detector
  have none {t : Thread} {operation : Operation} (here : pr.operation t = some operation) :
      False := by
    rw [outside] at here
    cases here
  have elsewhere {place : MainState} (here : pr.main = place) (other : place.takesOver = false) :
      False := by
    rw [here, other] at takesOver
    cases takesOver
  cases step with
  | dies _ => exact ⟨rfl, Or.inl rfl⟩
  | call here => exact (none here).elim
  | lock here _ => exact (none here).elim
  | sendRequestMsg here _ => exact (none here).elim
  | requestsSent here => exact (none here).elim
  | waitForOkMsg here _ _ => exact (none here).elim
  | newView here => exact (none here).elim
  | printNewlyInstalledView here _ => exact (none here).elim
  | sendNewViewMsg here => exact (none here).elim
  | lockView here _ => exact (none here).elim
  | deliver here _ => exact (none here).elim
  | delivered here => exact (none here).elim
  | reconnect here =>
      exact ⟨idle, Or.inr (Or.inl ⟨rfl, fun _ _ found => Or.inl found,
        fun _ _ place => by cases place⟩)⟩
  | unreachable here =>
      exact ⟨idle, Or.inr (Or.inl ⟨rfl, fun _ _ found => Or.inl found,
        fun _ _ place => by cases place⟩)⟩
  | reconnected here =>
      refine ⟨idle, Or.inr (Or.inl ⟨rfl, fun _ _ found => Or.inl found, fun _ _ place => ?_⟩)⟩
      cases place
      exact .reconnected (by rw [here]; rfl) (by rw [here]; rfl) rfl
  | @introduce newLeaderMsg peer client rest tempAlivePeers here =>
      refine ⟨idle, Or.inr (Or.inl ⟨rfl, fun p k found => ?_, fun _ _ place => by cases place⟩)⟩
      rcases insertClient_cases found with before | ⟨_, rfl⟩
      · exact Or.inl before
      · exact Or.inr (.introduces here)
  | introduceFailed here =>
      exact ⟨idle, Or.inr (Or.inl ⟨rfl, fun _ _ found => Or.inl found,
        fun _ _ place => by cases place⟩)⟩
  | pendingRequest here found =>
      refine ⟨idle, Or.inr (Or.inl ⟨rfl, fun _ _ found => Or.inl found, fun _ _ place => ?_⟩)⟩
      cases place
      exact .answer here found rfl rfl
  | notConnected here missing =>
      refine ⟨idle, Or.inr (Or.inl ⟨rfl, fun _ _ found => Or.inl found, fun _ _ place => ?_⟩)⟩
      cases place
      exact .notConnected here missing
  | completeRequest here pending =>
      exact ⟨idle, Or.inr (Or.inr ⟨_, _, here, rfl, rfl, Or.inl ⟨pending, rfl⟩⟩)⟩
  | nothingPending here nothing =>
      exact ⟨idle, Or.inr (Or.inr ⟨_, _, here, rfl, rfl, Or.inr ⟨nothing, rfl⟩⟩)⟩
  | skipMyself here => exact (elsewhere here rfl).elim
  | leaderFound here _ => exact (elsewhere here rfl).elim
  | noLeaderThere here _ => exact (elsewhere here rfl).elim
  | noLeaderFound here => exact (elsewhere here rfl).elim
  | startAsLeader here _ => exact (elsewhere here rfl).elim
  | accept here => exact (elsewhere here rfl).elim
  | followerReceives here _ _ => exact (elsewhere here rfl).elim
  | leaderLost here _ => exact (elsewhere here rfl).elim
  | sendOkMsg here _ => exact (elsewhere here rfl).elim
  | okMsgFailed here _ => exact (elsewhere here rfl).elim
  | waitForLeaderCrash here _ => exact (elsewhere here rfl).elim
  | handleLeaderCrash here _ => exact (elsewhere here rfl).elim
  | waitForNewLeaderMsg here => exact (elsewhere here rfl).elim
  | greet here => exact (elsewhere here rfl).elim
  | sendPendingRequestMsg here _ => exact (elsewhere here rfl).elim

/-- A message on the way has been there before, or has just been sent. -/
theorem World.Takes.mem_inbox {s s' : World} {e : Event} {i : ProcId} {t : Thread} {label : Label}
    {next : Process} (h : s.Takes e s' i t label next) {k : Socket} {m : Msg}
    (old : k.connection < s.opened) (mem : m ∈ s'.inbox k) :
    m ∈ s.inbox k ∨ ∃ client, label = .sent client m ∧ k = client.peer := by
  by_cases sent : ∃ client m', label = .sent client m' ∧ k = client.peer
  · obtain ⟨client, m', rfl, rfl⟩ := sent
    rw [h.inbox] at mem
    change m ∈ Function.update s.inbox client.peer _ client.peer at mem
    rw [Function.update_self] at mem
    rcases List.mem_append.mp mem with before | new
    · exact Or.inl before
    · rw [List.mem_singleton] at new
      rw [new]
      exact Or.inr ⟨client, rfl, rfl⟩
  · by_cases read : ∃ m', label = .received k m'
    · obtain ⟨m', rfl⟩ := read
      rw [h.inbox] at mem
      change m ∈ Function.update s.inbox k (s.inbox k).tail k at mem
      rw [Function.update_self] at mem
      exact Or.inl (List.mem_of_mem_tail mem)
    · rw [h.inbox_eq old (fun client m' same here => sent ⟨client, m', same, here⟩)
        fun client m' same here => read ⟨m', here ▸ same⟩] at mem
      exact Or.inl mem

namespace Vacant

variable {exact : Prop} {T : ProcId} {r : RequestMsg} {s s' : World} {e : Event} {i : ProcId}
  {t : Thread} {label : Label} {next : Process}

theorem outside (h : Vacant exact T r s) (i : ProcId) (t : Thread) :
    (s.processes i).operation t = none := by
  cases t with
  | detector => exact h.idle i
  | main =>
      unfold Process.operation
      dsimp only
      cases place : (s.processes i).main with
      | addPeer operation =>
          by_cases same : i = T
          · rcases h.place with takesOver | stopped
            · rw [← same, place] at takesOver
              cases takesOver
            · rw [← same, place] at stopped
              cases stopped
          · have obeys := h.obeys i same
            rw [place] at obeys
            cases obeys
      | completeRequest operation =>
          by_cases same : i = T
          · rcases h.place with takesOver | stopped
            · rw [← same, place] at takesOver
              cases takesOver
            · rw [← same, place] at stopped
              cases stopped
          · have obeys := h.obeys i same
            rw [place] at obeys
            cases obeys
      | _ => rfl

theorem not_follows (h : Vacant exact T r s) : (s.processes T).main.follows = false := by
  rcases h.place with takesOver | stopped
  · rw [Bool.eq_false_iff]
    intro follows
    have commands := MainState.commands_of_takesOver takesOver
    rw [MainState.commands_of_follows follows] at commands
    cases commands
  · rw [stopped]
    rfl

/-- A process that takes over plays its role at each of its connections. -/
theorem plays (takesOver : (s.processes T).main.takesOver = true) {p : PeerId} {k : Socket}
    (found : (s.processes T).service.tcpClientMap p = some k) :
    (s.processes T).Plays k .asks ∨ (s.processes T).Plays k (.leads []) ∧
      ∃ rest m, (s.processes T).main = .waitForPendingRequestMsg rest m ∧ p ∉ rest := by
  cases place : (s.processes T).main with
  | sendNewLeaderMsg => exact Or.inl (.introduced (by rw [place]; rfl) found)
  | introduce => exact Or.inl (.introduced (by rw [place]; rfl) found)
  | waitForPendingRequestMsg rest m =>
      by_cases unread : p ∈ rest
      · exact Or.inl (.asks place unread found)
      · exact Or.inr ⟨.asked place unread found, rest, m, rfl, unread⟩
  | _ =>
      rw [place] at takesOver
      cases takesOver

/-- Somebody answers the process that takes over: nothing is on the way to it, and it is still
expected to. -/
theorem unanswered (wired : Wired s) (session : InSession s)
    (takesOver : (s.processes T).main.takesOver = true) {p : PeerId} {k : Socket}
    (found : (s.processes T).service.tcpClientMap p = some k)
    (answers : (s.processes i).Plays k.peer .answers) :
    s.inbox k = [] ∧ ∀ rest m, (s.processes T).main = .waitForPendingRequestMsg rest m →
      p ∈ rest := by
  obtain ⟨less, own, _⟩ := wired.held T p k (Or.inl found)
  obtain ⟨_, own'⟩ := wired.owner_of_plays answers
  have there : s.Plays k.peer .answers := .process (own' ▸ answers)
  have here := session.session k less
  generalize s.inbox k = inbox at here ⊢
  generalize s.inbox k.peer = inbox' at here
  rcases plays takesOver found with asks | ⟨leads, rest, m, place, read⟩
  · obtain ⟨R, R', unique, unique', joint⟩ := here
    rw [← unique .asks (.process (own ▸ asks)), ← unique' .answers there] at joint
    rcases joint with joint | joint
    · cases joint
    · cases joint
      refine ⟨rfl, fun rest m place => ?_⟩
      by_contra read
      have leads := unique _ (.process (own ▸ Plays.asked place read found))
      rw [← unique .asks (.process (own ▸ asks))] at leads
      cases leads
  · obtain ⟨R, R', unique, unique', joint⟩ := here
    rw [← unique _ (.process (own ▸ leads)), ← unique' .answers there] at joint
    rcases joint with joint | joint
    · cases joint
    · cases joint

/-- Where a follower comes to read from while somebody takes over. -/
theorem reads_back (wired : Wired s) (follows : (s.processes i).main.follows = true)
    (idle : (s.processes i).detector = none) (takes : s.Takes e s' i t label next)
    (stays : next.main.follows = true) {p : PeerId} {k : Socket}
    (found : (s.processes T).service.tcpClientMap p = some k)
    (reads : next.leaderClient = some k.peer) :
    (s.processes i).leaderClient = some k.peer ∨ (s.processes i).Plays k.peer .answers := by
  rcases takes.read_before wired follows idle stays reads with before | new | plays
  · exact Or.inl before
  · have same := congrArg Socket.connection new
    exact absurd same (Nat.ne_of_lt (wired.held T p k (Or.inl found)).1)
  · exact Or.inr plays

/-- What the one who takes over has heard, after a step of a follower. -/
theorem asking_follower (h : Vacant exact T r s) (wired : Wired s) (session : InSession s)
    (takesOver : (s.processes T).main.takesOver = true) (apart : i ≠ T)
    (follows : (s.processes i).main.follows = true)
    (takes : s.Takes e s' i t label next) (kept : s.KeepsOutlook s') : Asking exact T r s' := by
  have asking := h.asking takesOver
  have leader : s'.processes T = s.processes T := takes.other apart.symm
  -- an answer that has just been sent
  have sends {p : PeerId} {k : Socket} {m : RequestMsg}
      (found : (s.processes T).service.tcpClientMap p = some k) (mem : .request m ∈ s'.inbox k) :
      .request m ∈ s.inbox k ∨ (s.processes i).main = .sendPendingRequestMsg ∧
        (s.processes i).Plays k.peer .answers ∧ m = (s.outlook i).answer := by
    rcases takes.mem_inbox (wired.held T p k (Or.inl found)).1 mem with before | ⟨client, rfl, rfl⟩
    · exact Or.inl before
    · obtain ⟨place, answers, same⟩ := takes.step.sends_request (h.outside i)
      right
      rw [Socket.peer_peer]
      refine ⟨place, answers, same.trans ?_⟩
      unfold World.outlook
      rw [outlook_of_none (leaderClient_of_not_reads (by rw [place]; rfl))]
      rfl
  have reads {j : ProcId} {p : PeerId} {k : Socket}
      (found : (s.processes T).service.tcpClientMap p = some k)
      (reading : (s'.processes j).leaderClient = some k.peer) :
      (s.processes j).leaderClient = some k.peer ∨
        j = i ∧ (s.processes i).Plays k.peer .answers := by
    by_cases same : j = i
    · subst same
      rw [takes.here] at reading
      have goesOn := MainState.follows_of_reads (holds_of_leaderClient reading).1
      exact (reads_back wired follows (h.idle j) takes goesOn found reading).imp_right
        fun answers => ⟨rfl, answers⟩
    · rw [takes.other same] at reading
      exact Or.inl reading
  have outlook {j : ProcId} {k : Socket} (reading : (s'.processes j).leaderClient = some k) :
      s'.outlook j = s.outlook j :=
    (kept j (MainState.follows_of_reads (holds_of_leaderClient reading).1)).2
  refine ⟨fun p k m found mem something => ?_, fun j p k m found reading mem => ?_,
    by rw [leader]; exact asking.chosen,
    fun rest m place j p k read found reading holding => ?_⟩
  · rw [leader] at found
    rcases sends found mem with before | ⟨_, _, same⟩
    · exact asking.answers p k m found before something
    · rw [same] at something ⊢
      exact (h.fits i follows).answer something
  · rw [leader] at found
    rw [outlook reading]
    rcases sends found mem with before | ⟨place, answers, same⟩
    · rcases reads found reading with earlier | ⟨_, answers⟩
      · exact asking.answered j p k m found earlier before
      · rw [(unanswered wired session takesOver found answers).1] at before
        cases before
    · rcases reads found reading with earlier | ⟨here, _⟩
      · -- whoever reads there is not about to answer
        have own := (Takes.owns wired earlier).2
        have own' := (wired.owner_of_plays answers).2
        have here : j = i := own.symm.trans own'
        rw [here, leaderClient_of_not_reads (by rw [place]; rfl)] at earlier
        cases earlier
      · rw [here]
        exact same
  · rw [leader] at place found
    obtain ⟨follows', something⟩ := holdsRequest_iff.mp holding
    obtain ⟨before, same⟩ := kept j follows'
    rw [same] at something
    rcases reads found reading with earlier | ⟨_, answers⟩
    · exact asking.heard rest m place j p k read found earlier
        (holdsRequest_iff.mpr ⟨before, something⟩)
    · exact absurd ((unanswered wired session takesOver found answers).2 rest m place) read

/-- The one who took over is gone when another process is about to lead. -/
theorem stopped_of_unled (h : Vacant exact T r s) (wired : Wired s) (apart : i ≠ T)
    (unled : s.Unled i) : (s.processes T).main = .stopped := by
  rcases h.place with takesOver | stopped
  · have commands := MainState.commands_of_takesOver takesOver
    have known := wired.started T (MainState.running_of_commands commands)
    rw [unled T (List.mem_range.mpr known) apart.symm] at commands
    cases commands
  · exact stopped

theorem obeys_of_stopped (h : Vacant exact T r s) (stopped : (s.processes T).main = .stopped)
    (i : ProcId) : (s.processes i).main.commands = false := by
  by_cases same : i = T
  · rw [same, stopped]
    rfl
  · exact h.obeys i same

/-- What the followers hold is kept by whoever takes a step. -/
theorem fits_of_kept (h : Vacant exact T r s) (takes : s.Takes e s' i t label next)
    (kept : s.KeepsOutlook s') (j : ProcId) (follows : (s'.processes j).main.follows = true) :
    (s'.outlook j).Fits exact r (s'.processes j).me := by
  obtain ⟨before, same⟩ := kept j follows
  have me : (s'.processes j).me = (s.processes j).me := by
    rw [takes.process]
    split
    · rename_i here
      rw [here]
      exact takes.step.me_eq
    · rfl
  rw [same, me]
  exact h.fits j before

theorem holdsRequest_of_kept (kept : s.KeepsOutlook s') {j : ProcId}
    (holds : s'.holdsRequest j = true) :
    (s'.processes j).main.follows = true ∧ s.holdsRequest j = true := by
  obtain ⟨follows, something⟩ := holdsRequest_iff.mp holds
  obtain ⟨before, same⟩ := kept j follows
  rw [same] at something
  exact ⟨follows, holdsRequest_iff.mpr ⟨before, something⟩⟩

/-- **A process founds a group**: nobody holds a request. -/
theorem founds (h : Vacant exact T r s) (wired : Wired s) (apart : i ≠ T)
    (takes : s.Takes e s' i t label next) (kept : s.KeepsOutlook s') (unled : s.Unled i)
    (reaches : s.Reaches i) (place : (s.processes i).main = .findLeader [])
    (goes : next = { s.processes i with
      service := { (s.processes i).service with leaderPeerId := (s.processes i).me }
      main := .startAsLeader }) : Led exact i r s' := by
  have stopped := h.stopped_of_unled wired apart unled
  have unconnected : ∀ p, (s.processes i).service.tcpClientMap p = none :=
    (wired.sound i).searching [] place
  have idle : ∀ t, next.operation t = none := by
    intro t
    rw [goes]
    cases t with
    | main => rfl
    | detector => exact h.idle i
  have leader : s'.processes i = next := takes.here
  refine ⟨?_, fun j other => ?_, fun j other => ?_, h.fits_of_kept takes kept,
    fun j holding => ?_, fun _ j p k _ found _ _ => ?_⟩
  · rw [leader]
    refine ⟨by rw [goes]; rfl, .of_idle (idle .main) (idle .detector), fun t operation here => ?_⟩
    rw [idle] at here
    cases here
  · rw [takes.other other]
    exact h.obeys_of_stopped stopped j
  · rw [takes.other other]
    exact h.idle j
  · obtain ⟨follows, before⟩ := holdsRequest_of_kept kept holding
    have known := wired.started j (MainState.running_of_follows (holdsRequest_iff.mp before).1)
    rcases reaches j (List.mem_range.mpr known) before with same | ⟨p, _, reads, something⟩
    · rw [same, leader, goes] at follows
      cases follows
    · rw [unconnected] at reads
      exact absurd reads.symm something
  · rw [leader, goes] at found
    change (s.processes i).service.tcpClientMap p = some k at found
    rw [unconnected] at found
    cases found

/-- **A process is elected.** -/
theorem elects (h : Vacant exact T r s) (wired : Wired s) (apart : i ≠ T)
    (takes : s.Takes e s' i t label next) (kept : s.KeepsOutlook s') (unled : s.Unled i)
    (elected : nextLeader (s.processes i).me (s.processes i).heartBeats.getAlivePeers =
      (s.processes i).me)
    (goes : next = (s.processes i).handleLeaderCrash) : Vacant exact i r s' := by
  have stopped := h.stopped_of_unled wired apart unled
  have leader : s'.processes i = next := takes.here
  unfold Process.handleLeaderCrash at goes
  dsimp only at goes
  rw [if_pos elected] at goes
  have unconnected {p : PeerId} {k : Socket}
      (found : (s'.processes i).service.tcpClientMap p = some k) : False := by
    rw [leader, goes] at found
    cases found
  refine ⟨fun j other => ?_, fun j => ?_, Or.inl ?_, h.fits_of_kept takes kept, fun _ =>
    ⟨fun p k m found => (unconnected found).elim, fun j p k m found => (unconnected found).elim,
      fun rest m place => ?_, fun rest m place => ?_⟩⟩
  · rw [takes.other other]
    exact h.obeys_of_stopped stopped j
  · rw [takes.process]
    split
    · rw [goes]
      exact h.idle i
    · exact h.idle j
  · rw [leader, goes]
    rfl
  · rw [leader, goes] at place
    cases place
  · rw [leader, goes] at place
    cases place

/-- **A follower takes a step.** -/
theorem follower (h : Vacant exact T r s) (wired : Wired s) (session : InSession s)
    (allowed : OneLeader s e) (passes : PassesNobody s e) (takes : s.Takes e s' i t label next)
    (apart : i ≠ T) : Vacant exact T r s' ∨ Vacant exact i r s' ∨ Led exact i r s' := by
  have follows : (s.processes i).main.follows = true := by
    rcases MainState.follows_or_stopped (h.obeys i apart) with follows | stopped
    · exact follows
    · have running := takes.running
      unfold Process.running at running
      rw [stopped] at running
      cases running
  have kept := takes.keepsOutlook wired session allowed (h.outside i) fun _ => follows
  obtain ⟨idle, obeys | ⟨rfl, rfl, leads⟩⟩ := takes.step.obeys follows (h.idle i)
  · left
    have leader : s'.processes T = s.processes T := takes.other apart.symm
    refine ⟨fun j other => ?_, fun j => ?_, by rw [leader]; exact h.place,
      h.fits_of_kept takes kept, fun takesOver => ?_⟩
    · rw [takes.process]
      split
      · exact obeys
      · exact h.obeys j other
    · rw [takes.process]
      split
      · exact idle
      · exact h.idle j
    · rw [leader] at takesOver
      exact h.asking_follower wired session takesOver apart follows takes kept
  · right
    have permitted := takes.permits allowed fun _ _ same => by cases same
    cases takes.runs fun _ _ same => by cases same
    rcases leads with ⟨place, goes⟩ | ⟨place, elected, goes⟩
    · right
      have reaches : s.Reaches i := passes (by rw [place]; rfl)
      rw [place] at permitted
      exact h.founds wired apart takes kept permitted reaches place goes
    · left
      rw [place] at permitted
      exact h.elects wired apart takes kept (permitted elected) elected goes

/-- What the one who takes over has heard, after a step of its own. -/
theorem asking_taker (h : Vacant exact T r s) (wired : Wired s) (session : InSession s)
    (takesOver : (s.processes T).main.takesOver = true)
    (takes : s.Takes e s' T t label next) (kept : s.KeepsOutlook s')
    (goesOn : next.main.takesOver = true)
    (tcpClientMap : ∀ p k, next.service.tcpClientMap p = some k →
      (s.processes T).service.tcpClientMap p = some k ∨ (s.processes T).Plays k .introduces)
    (hears : ∀ rest m, next.main = .waitForPendingRequestMsg rest m →
      (s.processes T).Hears label rest m) : Asking exact T r s' := by
  have asking := h.asking takesOver
  have leader : s'.processes T = next := takes.here
  have apart {j : ProcId} (follows : (s'.processes j).main.follows = true) : j ≠ T := by
    rintro rfl
    rw [leader] at follows
    have commands := MainState.commands_of_takesOver goesOn
    rw [MainState.commands_of_follows follows] at commands
    cases commands
  have reads {j : ProcId} {k : Socket} (reading : (s'.processes j).leaderClient = some k) :
      (s.processes j).leaderClient = some k ∧ s'.outlook j = s.outlook j := by
    have follows := MainState.follows_of_reads (holds_of_leaderClient reading).1
    rw [takes.other (apart follows)] at reading
    exact ⟨reading, (kept j follows).2⟩
  -- what is on the way has been on the way on an old connection
  have before {p : PeerId} {k : Socket} {m : RequestMsg}
      (found : next.service.tcpClientMap p = some k) (mem : .request m ∈ s'.inbox k) :
      (s.processes T).service.tcpClientMap p = some k ∧ .request m ∈ s.inbox k := by
    have own : k.connection < s.opened ∧ s.owner k = T := by
      rcases tcpClientMap p k found with old | introduces
      · exact ⟨(wired.held T p k (Or.inl old)).1, (wired.held T p k (Or.inl old)).2.1⟩
      · exact wired.owner_of_plays introduces
    have mem' : .request m ∈ s.inbox k := by
      rcases takes.mem_inbox own.1 mem with old | ⟨client, rfl, rfl⟩
      · exact old
      · obtain ⟨place, _⟩ := takes.step.sends_request (h.outside T)
        rw [place] at takesOver
        cases takesOver
    refine ⟨(tcpClientMap p k found).resolve_right fun introduces => ?_, mem'⟩
    have playing : s.Plays k .introduces := .process (own.2 ▸ introduces)
    have here := session.session k own.1
    generalize s.inbox k = inbox at here mem'
    generalize s.inbox k.peer = inbox' at here
    refine here.holds playing (fun R joint => ?_) fun R joint => ?_
    · cases joint
    · cases joint
      cases mem'
  -- a member is not at the other end of a connection that has just been made
  have member {j : ProcId} {p : PeerId} {k : Socket} (found : next.service.tcpClientMap p = some k)
      (reading : (s.processes j).leaderClient = some k.peer) :
      (s.processes T).service.tcpClientMap p = some k := by
    refine (tcpClientMap p k found).resolve_right fun introduces => ?_
    obtain ⟨answering, plays⟩ := plays_of_leaderClient reading
    obtain ⟨less, own⟩ := wired.owner_of_plays introduces
    obtain ⟨_, own'⟩ := wired.owner_of_plays plays
    rcases session.joint less (.process (own ▸ introduces)) (.process (own' ▸ plays)) with
      joint | joint
    · cases joint
    · cases joint
  refine ⟨fun p k m found mem something => ?_, fun j p k m found reading mem => ?_,
    fun rest m place something => ?_, fun rest m place j p k read found reading holding => ?_⟩
  · rw [leader] at found
    obtain ⟨found', mem'⟩ := before found mem
    exact asking.answers p k m found' mem' something
  · rw [leader] at found
    obtain ⟨found', mem'⟩ := before found mem
    obtain ⟨reading', outlook⟩ := reads reading
    rw [outlook]
    exact asking.answered j p k m found' reading' mem'
  · rw [leader] at place
    cases hears rest m place with
    | reconnected _ _ nothing => exact absurd nothing something
    | @answer peer client requestMsg m' place' found read last =>
        subst read
        have mem : .request requestMsg ∈ s.inbox client := by
          obtain ⟨_, _, head⟩ := takes.met
          rw [head]
          exact List.mem_cons_self
        subst last
        split at something
        · rename_i isRequest
          rw [if_pos isRequest]
          exact asking.answers peer client requestMsg found mem isRequest
        · rename_i nothing
          rw [if_neg nothing]
          exact asking.chosen _ m' place' something
    | notConnected place' _ => exact asking.chosen _ m place' something
  · rw [leader] at place found
    obtain ⟨reading', outlook⟩ := reads reading
    have found' := member found reading'
    obtain ⟨_, holding'⟩ := holdsRequest_of_kept kept holding
    cases hears rest m place with
    | reconnected reconnects all nothing =>
        have reached := (session.tidy T).reached reconnects p
          (by rw [found']; exact Option.some_ne_none _)
        rw [all] at read
        exact absurd reached read
    | @answer peer client requestMsg m' place' there label_eq last =>
        subst label_eq
        have mem : .request requestMsg ∈ s.inbox client := by
          obtain ⟨_, _, head⟩ := takes.met
          rw [head]
          exact List.mem_cons_self
        subst last
        split
        · rename_i isRequest
          exact isRequest
        · rename_i nothing
          by_cases same : p = peer
          · -- the answer that is read is what this follower holds
            subst same
            rw [found'] at there
            cases there
            have said := asking.answered j p k requestMsg found' reading' mem
            obtain ⟨follows, something⟩ := holdsRequest_iff.mp holding'
            obtain ⟨isRequest, _⟩ := h.fits j follows something
            rw [said] at nothing
            exact absurd isRequest nothing
          · refine asking.heard _ m' place' j p k (fun mem' => ?_) found' reading' holding'
            exact (List.mem_cons.mp mem').elim same read
    | @notConnected peer place' missing =>
        refine asking.heard _ m place' j p k (fun mem' => ?_) found' reading' holding'
        rcases List.mem_cons.mp mem' with same | later
        · rw [same, missing] at found'
          cases found'
        · exact read later

/-- **The choice**: a leader, and whoever holds a request follows it. -/
theorem chooses (h : Vacant exact T r s) (wired : Wired s)
    (takes : s.Takes e s' T .main label next) (kept : s.KeepsOutlook s') (reaches : s.Reaches T)
    {m : RequestMsg} (place : (s.processes T).main = .waitForPendingRequestMsg [] m)
    (loose : exact → m.operationType = .NOTHING)
    (goes : m.operationType ≠ .NOTHING ∧ next = { s.processes T with
        main := .completeRequest (.call m.peerId m.operationType) } ∨
      m.operationType = .NOTHING ∧ next = { (s.processes T).install with
        main := .completeRequest .sendNewViewMsg }) : Led exact T r s' := by
  have asking := h.asking (by rw [place]; rfl)
  have leader : s'.processes T = next := takes.here
  have idle : next.detector = none := by
    rcases goes with ⟨_, rfl⟩ | ⟨_, rfl⟩ <;> exact h.idle T
  have service : next.service = (s.processes T).service := by
    rcases goes with ⟨_, rfl⟩ | ⟨_, rfl⟩ <;> rfl
  have steady : next.Steady := by
    refine takes.step.steady (.of_idle (h.outside T .main) (h.idle T)) fun _ => h.idle T
  -- whoever holds a request has said so
  have heard {j : ProcId} (holding : s'.holdsRequest j = true) : ∃ p k,
      p ∈ next.service.alivePeers ∧ next.service.tcpClientMap p = some k ∧
        (s'.processes j).leaderClient = some k.peer ∧ m.operationType ≠ .NOTHING := by
    obtain ⟨follows, before⟩ := holdsRequest_of_kept kept holding
    have known := wired.started j (MainState.running_of_follows (holdsRequest_iff.mp before).1)
    have apart : j ≠ T := by
      rintro rfl
      have follows' := (holdsRequest_iff.mp before).1
      rw [h.not_follows] at follows'
      cases follows'
    obtain ⟨p, mem, reads, something⟩ :=
      (reaches j (List.mem_range.mpr known) before).resolve_left apart
    obtain ⟨k, found⟩ : ∃ k, (s.processes T).service.tcpClientMap p = some k := by
      cases found : (s.processes T).service.tcpClientMap p with
      | none =>
          rw [found] at reads
          exact absurd reads.symm something
      | some k => exact ⟨k, rfl⟩
    rw [found] at reads
    have reading : (s.processes j).leaderClient = some k.peer := reads.symm
    rw [service, takes.other apart]
    exact ⟨p, k, mem, found, reading,
      asking.heard [] m place j p k List.not_mem_nil found reading before⟩
  refine ⟨?_, fun j other => ?_, fun j other => ?_, h.fits_of_kept takes kept,
    fun j holding => ?_, fun isExact j p k _ _ _ told => ?_⟩
  · rw [leader]
    rcases goes with ⟨pending, rfl⟩ | ⟨nothing, rfl⟩
    · refine ⟨rfl, steady, fun t operation here => ?_⟩
      cases t with
      | main =>
          cases here
          obtain ⟨operationType, peerId, _⟩ := asking.chosen [] m place pending
          exact ⟨pending, fun _ => ⟨fun isExact => pending (loose isExact), operationType, peerId⟩⟩
      | detector =>
          change (s.processes T).detector = _ at here
          rw [h.idle] at here
          cases here
    · refine ⟨rfl, steady, fun t operation here => ?_⟩
      cases t with
      | main =>
          cases here
          exact trivial
      | detector =>
          change (s.processes T).detector = _ at here
          rw [h.idle] at here
          cases here
  · rw [takes.other other]
    exact h.obeys j other
  · rw [takes.other other]
    exact h.idle j
  · obtain ⟨p, k, mem, found, reading, something⟩ := heard holding
    rw [leader]
    refine ⟨p, k, mem, found, reading, .main, .call m.peerId m.operationType, ?_, ?_⟩
    · rcases goes with ⟨_, rfl⟩ | ⟨nothing, _⟩
      · rfl
      · exact absurd nothing something
    · rcases goes with ⟨_, rfl⟩ | ⟨nothing, _⟩
      · rfl
      · exact absurd nothing something
  · -- the view is still to be sent to everybody
    rw [leader] at told
    rcases goes with ⟨pending, _⟩ | ⟨_, rfl⟩
    · exact absurd (loose isExact) pending
    · cases told

/-- **The one who takes over takes a step.** -/
theorem taker (h : Vacant exact T r s) (wired : Wired s) (session : InSession s)
    (allowed : OneLeader s e) (passes : PassesNobody s e)
    (nothing : exact → CompletesNothing s e) (takes : s.Takes e s' T t label next) :
    Vacant exact T r s' ∨ Led exact T r s' := by
  have takesOver : (s.processes T).main.takesOver = true := by
    rcases h.place with takesOver | stopped
    · exact takesOver
    · have running := takes.running
      unfold Process.running at running
      rw [stopped] at running
      cases running
  obtain ⟨idle, goes⟩ := takes.step.takes_over takesOver (h.outside T)
  have kept : s.KeepsOutlook s' := by
    refine takes.keepsOutlook wired session allowed (h.outside T) fun follows => ?_
    rcases goes with stopped | ⟨goesOn, _⟩ | ⟨m, created, _, _, _, ⟨_, rfl⟩ | ⟨_, rfl⟩⟩
    · rw [stopped] at follows
      cases follows
    · have commands := MainState.commands_of_takesOver goesOn
      rw [MainState.commands_of_follows follows] at commands
      cases commands
    · cases follows
    · cases follows
  have vacant (place : next.main.takesOver = true ∨ next.main = .stopped)
      (asking : next.main.takesOver = true → Asking exact T r s') : Vacant exact T r s' := by
    refine ⟨fun j other => ?_, fun j => ?_, by rw [takes.here]; exact place,
      h.fits_of_kept takes kept, by rw [takes.here]; exact asking⟩
    · rw [takes.other other]
      exact h.obeys j other
    · rw [takes.process]
      split
      · exact idle
      · exact h.idle j
  rcases goes with stopped | ⟨goesOn, tcpClientMap, hears⟩ | ⟨m, created, place, rfl, rfl, goes⟩
  · refine Or.inl (vacant (Or.inr stopped) fun goesOn => ?_)
    rw [stopped] at goesOn
    cases goesOn
  · exact Or.inl (vacant (Or.inl goesOn) fun _ =>
      h.asking_taker wired session takesOver takes kept goesOn tcpClientMap hears)
  · right
    cases takes.runs fun _ _ same => by cases same
    have reaches : s.Reaches T := passes (by rw [place]; rfl)
    refine h.chooses wired takes kept reaches place (fun isExact => ?_) goes
    exact nothing isExact m (by rw [place]; rfl)

/-- **A failure detector learns something.** -/
theorem learns (h : Vacant exact T r s) (learns : (s.processes i).Learns next) :
    Vacant exact T r (s.setProcess i next) := by
  have process : ∀ j, (s.setProcess i next).processes j = if j = i then next else s.processes j :=
    fun j => Function.update_apply _ _ _ _
  have main : ∀ j, ((s.setProcess i next).processes j).main = (s.processes j).main := by
    intro j
    rw [process]
    split
    · rename_i same
      rw [same, learns.main]
    · rfl
  have reads : ∀ j, ((s.setProcess i next).processes j).leaderClient =
      (s.processes j).leaderClient := by
    intro j
    rw [process]
    split
    · rename_i same
      rw [same, learns.leaderClient]
    · rfl
  have outlook : ∀ j, (s.setProcess i next).outlook j = s.outlook j := by
    intro j
    unfold World.outlook
    rw [process]
    split
    · rename_i same
      rw [same]
      exact learns.outlook s.inbox
    · rfl
  have holds : ∀ j, (s.setProcess i next).holdsRequest j = s.holdsRequest j := by
    intro j
    unfold World.holdsRequest
    rw [main, outlook]
  have tcpClientMap : ((s.setProcess i next).processes T).service.tcpClientMap =
      (s.processes T).service.tcpClientMap := by
    obtain ⟨leaderCrashed, service⟩ := learns.service
    rw [process]
    split
    · rename_i same
      rw [same, service]
    · rfl
  refine ⟨fun j other => ?_, fun j => ?_, by rw [main]; exact h.place, fun j follows => ?_,
    fun takesOver => ?_⟩
  · rw [main]
    exact h.obeys j other
  · rw [process]
    split
    · rcases learns.detector with none | ⟨serves, _⟩
      · exact none
      · by_cases same : i = T
        · rcases h.place with takesOver | stopped
          · rw [same] at serves
            revert takesOver serves
            cases (s.processes T).main <;> simp [MainState.takesOver, MainState.serves]
          · rw [same, stopped] at serves
            cases serves
        · have obeys := h.obeys i same
          rw [MainState.commands_of_serves serves] at obeys
          cases obeys
    · exact h.idle j
  · rw [main] at follows
    have me : ((s.setProcess i next).processes j).me = (s.processes j).me := by
      rw [process]
      split
      · rename_i same
        rw [same, learns.me]
      · rfl
    rw [outlook, me]
    exact h.fits j follows
  · rw [main] at takesOver
    have asking := h.asking takesOver
    refine ⟨?_, fun j => ?_, ?_, fun rest m place j => ?_⟩
    · rw [tcpClientMap]
      exact asking.answers
    · rw [tcpClientMap, reads, outlook]
      exact asking.answered j
    · rw [main]
      exact asking.chosen
    · rw [main] at place
      rw [tcpClientMap, reads, holds]
      exact asking.heard rest m place j

/-- **A process starts.** -/
theorem start (h : Vacant exact T r s) (starts : s.Starts s' i) (apart : T ≠ i) :
    Vacant exact T r s' := by
  have leader := starts.other T apart
  refine ⟨fun j other => ?_, fun j => ?_, by rw [leader]; exact h.place,
    fun j follows something => ?_, fun takesOver => ?_⟩
  · by_cases same : j = i
    · obtain ⟨hosts, place⟩ := starts.place
      rw [same, place]
      rfl
    · rw [starts.other j same]
      exact h.obeys j other
  · by_cases same : j = i
    · rw [same]
      exact starts.idle
    · rw [starts.other j same]
      exact h.idle j
  · have old := starts.apart something
    rw [starts.other j old] at follows ⊢
    rw [starts.outlook old] at something ⊢
    exact h.fits j follows something
  · rw [leader] at takesOver
    have asking := h.asking takesOver
    have old {j : ProcId} {k : Socket} (reads : (s'.processes j).leaderClient = some k) :
        j ≠ i := by
      rintro rfl
      rw [starts.leaderClient] at reads
      cases reads
    refine ⟨?_, fun j p k m found reads mem => ?_, ?_,
      fun rest m place j p k read found reads holding => ?_⟩
    · rw [leader, starts.inbox]
      exact asking.answers
    · rw [starts.outlook (old reads)]
      rw [starts.other j (old reads)] at reads
      rw [leader] at found
      rw [starts.inbox] at mem
      exact asking.answered j p k m found reads mem
    · rw [leader]
      exact asking.chosen
    · obtain ⟨_, before⟩ := starts.holdsRequest holding
      rw [starts.other j (old reads)] at reads
      rw [leader] at place found
      exact asking.heard rest m place j p k read found reads before

end Vacant

/-- **The leader stops.** -/
theorem Led.stops {exact : Prop} {L : ProcId} {r : RequestMsg} {s s' : World} {e : Event}
    {t : Thread} {label : Label} {next : Process} (h : Led exact L r s) (wired : Wired s)
    (takes : s.Takes e s' L t label next) (stopped : next.main = .stopped)
    (idle : next.detector = none) (notSent : ∀ k m, label ≠ .sent k m) :
    Vacant exact L r s' := by
  have leader : s'.processes L = next := takes.here
  refine ⟨fun j apart => ?_, fun j => ?_, Or.inr (by rw [leader]; exact stopped),
    fun j follows => ?_, fun takesOver => ?_⟩
  · rw [takes.other apart]
    exact h.obeys j apart
  · by_cases same : j = L
    · rw [same, leader]
      exact idle
    · rw [takes.other same]
      exact h.idle j same
  · have apart : j ≠ L := by
      rintro rfl
      rw [leader, stopped] at follows
      cases follows
    rw [takes.other apart] at follows ⊢
    rw [takes.outlook_other wired apart fun k m sent => absurd sent (notSent k m)]
    exact h.fits j follows
  · rw [leader, stopped] at takesOver
    cases takesOver

end GroupComm.Lab2
