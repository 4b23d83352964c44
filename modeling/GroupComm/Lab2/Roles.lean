import GroupComm.Lab2.Connections
import GroupComm.Lab2.Protocol

/-!
# The roles of a process

`Process.Plays pr k R`: at its end `k` of a connection, `pr` plays role `R`.  `ThreadStep.plays`
says what the steps of a process do to its roles: what it sends and reads are the steps of
`Sends` and `Reads` on that connection, and elsewhere no role is taken up.
-/

namespace GroupComm.Lab2

open MembershipService

/-- The requests sent to `p` in this block whose answers have not been read. -/
def Operation.owed (operation : Operation) (alivePeers : OrderedSet PeerId) (p : PeerId) :
    List RequestId :=
  match operation with
  | .sendRequestMsg m rest => if p ∈ alivePeers ∧ p ∉ rest then [m.requestId] else []
  | .waitForOkMsg m rest => if p ∈ rest then [m.requestId] else []
  | _ => []

/-- The places from which the live peers are those that have been told of a new leader. -/
def MainState.reconnects : MainState → Bool
  | sendNewLeaderMsg _ _ _ => true
  | introduce _ _ _ _ _ => true
  | _ => false

/-- The places where a process has no connection to read from or to send on. -/
def MainState.isolated : MainState → Bool
  | findLeader _ => true
  | waitForLeaderCrash => true
  | handleLeaderCrash => true
  | waitForNewLeaderMsg => true
  | stopped => true
  | _ => false

/-- The places of a process with members of its own. -/
def MainState.rules : MainState → Bool
  | startAsLeader => true
  | accept => true
  | addPeer _ => true
  | completeRequest _ => true
  | _ => false

namespace Process

def owedBy (pr : Process) (p : PeerId) (t : Thread) : List RequestId :=
  ((pr.operation t).map fun operation => operation.owed pr.service.alivePeers p).getD []

def owed (pr : Process) (p : PeerId) : List RequestId :=
  pr.owedBy p .main ++ pr.owedBy p .detector

inductive Plays (pr : Process) (k : Socket) : Role → Prop
  | follows (place : pr.main = .startAsFollower)
      (found : pr.service.tcpClientMap pr.service.leaderPeerId = some k) :
    Plays pr k (.member [])
  | answers (place : pr.main = .sendOkMsg)
      (found : pr.service.tcpClientMap pr.service.leaderPeerId = some k) :
    Plays pr k (.member [pr.service.pendingRequest.requestId])
  | greets (place : pr.main = .greet k) : Plays pr k .greets
  | greeted (place : pr.main = .sendPendingRequestMsg)
      (found : pr.service.tcpClientMap pr.service.leaderPeerId = some k) :
    Plays pr k .answers
  | introduces {m peer rest tempAlivePeers}
      (place : pr.main = .introduce m peer k rest tempAlivePeers) : Plays pr k .introduces
  | introduced {p} (place : pr.main.reconnects = true)
      (found : pr.service.tcpClientMap p = some k) : Plays pr k .asks
  | asks {p rest m} (place : pr.main = .waitForPendingRequestMsg rest m) (unread : p ∈ rest)
      (found : pr.service.tcpClientMap p = some k) : Plays pr k .asks
  | asked {p rest m} (place : pr.main = .waitForPendingRequestMsg rest m) (read : p ∉ rest)
      (found : pr.service.tcpClientMap p = some k) : Plays pr k (.leads [])
  | leads {p} (place : pr.main.rules = true) (found : pr.service.tcpClientMap p = some k) :
    Plays pr k (.leads (pr.owed p))

/-- What a thread inside the first block has to do with the live peers. -/
def Addresses (service : MembershipService Socket) : Operation → Prop
  | .sendRequestMsg _ rest => rest.Nodup ∧ (∀ p ∈ rest, p ∈ service.alivePeers) ∧
      ∀ p ∈ service.alivePeers, p ∉ rest → service.tcpClientMap p ≠ none
  | .waitForOkMsg _ rest => rest.Nodup ∧ ∀ p ∈ rest, service.tcpClientMap p ≠ none
  | _ => True

structure Tidy (pr : Process) : Prop where
  deleting : pr.detector ≠ none → pr.main.serves = true
  reached : pr.main.reconnects = true → ∀ p, pr.service.tcpClientMap p ≠ none →
    p ∈ pr.main.reached
  asking : ∀ rest m, pr.main = .waitForPendingRequestMsg rest m → rest.Nodup
  addresses : ∀ t operation, pr.operation t = some operation → Addresses pr.service operation

/-- Distinct peers have distinct connections. -/
def Separated (pr : Process) : Prop :=
  ∀ p q k, pr.service.tcpClientMap p = some k → pr.service.tcpClientMap q = some k → p = q

/-! ## What is owed -/

theorem owed_of_unlocked {operation : Operation} (unlocked : operation.locked = false)
    (alivePeers : OrderedSet PeerId) (p : PeerId) : operation.owed alivePeers p = [] := by
  cases operation
  case sendRequestMsg => cases unlocked
  case waitForOkMsg => cases unlocked
  all_goals rfl

theorem addresses_of_unlocked {operation : Operation} (unlocked : operation.locked = false)
    (service : MembershipService Socket) : Addresses service operation := by
  cases operation
  case sendRequestMsg => cases unlocked
  case waitForOkMsg => cases unlocked
  all_goals exact trivial

/-- One thread is in a block at a time. -/
theorem Sound.unlocked {pr : Process} (sound : pr.Sound) {t : Thread}
    {operation operation' : Operation} (place : pr.operation t = some operation)
    (locked : operation.locked = true) (other : pr.operation t.other = some operation') :
    operation'.locked = false := by
  have main_locked {operation : Operation} (here : pr.operation .main = some operation) :
      pr.main.locked = operation.locked := by
    rcases operation_cases here with ⟨_, main⟩ | ⟨_, main⟩ | ⟨absurd, _⟩
    · rw [main]
      rfl
    · rw [main]
      rfl
    · cases absurd
  cases t with
  | main =>
      have free := sound.exclusive (by rw [main_locked place]; exact locked)
      change pr.detector = some operation' at other
      rwa [other] at free
  | detector =>
      rw [← main_locked other, ← Bool.not_eq_true]
      intro main
      have free := sound.exclusive main
      change pr.detector = some operation at place
      rw [place] at free
      rw [Option.any_some, locked] at free
      cases free

theorem owed_eq_of_alone {pr : Process} {t : Thread} {operation : Operation} {p : PeerId}
    (place : pr.operation t = some operation)
    (alone : ∀ operation', pr.operation t.other = some operation' →
      operation'.owed pr.service.alivePeers p = []) :
    pr.owed p = operation.owed pr.service.alivePeers p := by
  have nothing : pr.owedBy p t.other = [] := by
    unfold owedBy
    cases other : pr.operation t.other with
    | none => rfl
    | some operation' => exact alone operation' other
  have here : pr.owedBy p t = operation.owed pr.service.alivePeers p := by
    unfold owedBy
    rw [place]
    rfl
  unfold owed
  cases t with
  | main =>
      rw [← here]
      change _ ++ pr.owedBy p Thread.main.other = _
      rw [nothing, List.append_nil]
  | detector =>
      rw [← here]
      change pr.owedBy p Thread.detector.other ++ _ = _
      rw [nothing, List.nil_append]

/-- What is owed by a process with a thread inside a block. -/
theorem Sound.owed_eq {pr : Process} (sound : pr.Sound) {t : Thread} {operation : Operation}
    (place : pr.operation t = some operation) (locked : operation.locked = true) (p : PeerId) :
    pr.owed p = operation.owed pr.service.alivePeers p :=
  owed_eq_of_alone place fun _ other =>
    owed_of_unlocked (sound.unlocked place locked other) _ _

/-- What is owed after a step of a thread, when the other thread is in no block. -/
theorem owed_setOperation {pr : Process} (data : Process) {t : Thread}
    {operation next : Operation} (place : pr.operation t = some operation)
    (main : data.main = pr.main)
    (detector : data.detector = pr.detector)
    (free : ∀ operation', pr.operation t.other = some operation' → operation'.locked = false)
    (p : PeerId) :
    (data.setOperation next t).owed p = next.owed data.service.alivePeers p := by
  have moved := operation_setOperation place main detector next
  have here : (data.setOperation next t).operation t = some next := by
    rw [moved, if_pos rfl]
  rw [owed_eq_of_alone here, service_setOperation]
  intro operation' other
  rw [moved, if_neg t.other_ne] at other
  exact owed_of_unlocked (free operation' other) _ _

/-- A step outside the blocks owes nothing new. -/
theorem owed_goOn {pr data : Process} {t : Thread} {operation next : Operation}
    (place : pr.operation t = some operation) (main : data.main = pr.main)
    (detector : data.detector = pr.detector)
    (alivePeers : data.service.alivePeers = pr.service.alivePeers)
    (same : ∀ p, next.owed pr.service.alivePeers p = operation.owed pr.service.alivePeers p)
    (p : PeerId) : (data.setOperation next t).owed p = pr.owed p := by
  have moved := operation_setOperation place main detector next
  have by_thread : ∀ t', (data.setOperation next t).owedBy p t' = pr.owedBy p t' := by
    intro t'
    unfold owedBy
    rw [moved, service_setOperation, alivePeers]
    split
    · rename_i here
      rw [here, place]
      exact same p
    · rfl
  unfold owed
  rw [by_thread, by_thread]

/-! ## Which roles are played where -/

theorem rules_of_serves {main : MainState} (serves : main.serves = true) : main.rules = true := by
  cases main
  case startAsLeader => rfl
  case accept => rfl
  case addPeer => rfl
  all_goals cases serves

theorem Tidy.rules {pr : Process} (tidy : pr.Tidy) {t : Thread} {operation : Operation}
    (place : pr.operation t = some operation) : pr.main.rules = true := by
  rcases operation_cases place with ⟨_, main⟩ | ⟨_, main⟩ | ⟨_, detector⟩
  · rw [main]
    rfl
  · rw [main]
    rfl
  · apply rules_of_serves
    apply tidy.deleting
    rw [detector]
    exact Option.some_ne_none _

/-- The failure detector is idle where a process does not serve. -/
theorem Tidy.idle {pr : Process} (tidy : pr.Tidy) (main : pr.main.serves = false) :
    pr.detector = none := by
  by_contra busy
  have serves := tidy.deleting busy
  rw [main] at serves
  cases serves

theorem rules_setOperation {pr : Process} {operation : Operation} {t : Thread}
    (rules : pr.main.rules = true) : (pr.setOperation operation t).main.rules = true := by
  rcases pr.main_setOperation operation t with same | adds | completes
  · rw [same]
    exact rules
  · rw [adds]
    rfl
  · rw [completes]
    rfl

theorem plays_of_rules {pr : Process} {k : Socket} {R : Role} (rules : pr.main.rules = true)
    (plays : pr.Plays k R) :
    ∃ p, pr.service.tcpClientMap p = some k ∧ R = .leads (pr.owed p) := by
  cases plays with
  | leads place found => exact ⟨_, found, rfl⟩
  | introduced place found =>
      revert rules place
      cases pr.main <;> simp [MainState.rules, MainState.reconnects]
  | follows place found =>
      rw [place] at rules
      cases rules
  | answers place found =>
      rw [place] at rules
      cases rules
  | greets place =>
      rw [place] at rules
      cases rules
  | greeted place found =>
      rw [place] at rules
      cases rules
  | introduces place =>
      rw [place] at rules
      cases rules
  | asks place unread found =>
      rw [place] at rules
      cases rules
  | asked place read found =>
      rw [place] at rules
      cases rules

theorem plays_of_reconnecting {pr : Process} {k : Socket} {R : Role} {m : NewLeaderMsg}
    {rest : List PeerId} {tempAlivePeers : OrderedSet PeerId}
    (place : pr.main = .sendNewLeaderMsg m rest tempAlivePeers) (plays : pr.Plays k R) :
    ∃ p, pr.service.tcpClientMap p = some k ∧ R = .asks := by
  cases plays
  case introduced found => exact ⟨_, found, rfl⟩
  all_goals simp_all [MainState.rules]

theorem plays_of_asking {pr : Process} {k : Socket} {R : Role} {rest : List PeerId}
    {m : RequestMsg} (place : pr.main = .waitForPendingRequestMsg rest m)
    (plays : pr.Plays k R) : ∃ p, pr.service.tcpClientMap p = some k ∧
      (p ∈ rest ∧ R = .asks ∨ p ∉ rest ∧ R = .leads []) := by
  cases plays
  case asks place' unread found =>
    rw [place] at place'
    cases place'
    exact ⟨_, found, Or.inl ⟨unread, rfl⟩⟩
  case asked place' read found =>
    rw [place] at place'
    cases place'
    exact ⟨_, found, Or.inr ⟨read, rfl⟩⟩
  all_goals simp_all [MainState.rules, MainState.reconnects]

theorem plays_of_following {pr : Process} {k : Socket} {R : Role}
    (place : pr.main = .startAsFollower) (plays : pr.Plays k R) :
    pr.service.tcpClientMap pr.service.leaderPeerId = some k ∧ R = .member [] := by
  cases plays
  case follows found => exact ⟨found, rfl⟩
  all_goals simp_all [MainState.rules, MainState.reconnects]

theorem plays_of_answering {pr : Process} {k : Socket} {R : Role}
    (place : pr.main = .sendOkMsg) (plays : pr.Plays k R) :
    pr.service.tcpClientMap pr.service.leaderPeerId = some k ∧
      R = .member [pr.service.pendingRequest.requestId] := by
  cases plays
  case answers found => exact ⟨found, rfl⟩
  all_goals simp_all [MainState.rules, MainState.reconnects]

theorem plays_of_greeted {pr : Process} {k : Socket} {R : Role}
    (place : pr.main = .sendPendingRequestMsg) (plays : pr.Plays k R) :
    pr.service.tcpClientMap pr.service.leaderPeerId = some k ∧ R = .answers := by
  cases plays
  case greeted found => exact ⟨found, rfl⟩
  all_goals simp_all [MainState.rules, MainState.reconnects]

theorem plays_of_greeting {pr : Process} {k client : Socket} {R : Role}
    (place : pr.main = .greet client) (plays : pr.Plays k R) : k = client ∧ R = .greets := by
  cases plays
  case greets here =>
    rw [place] at here
    cases here
    exact ⟨rfl, rfl⟩
  all_goals simp_all [MainState.rules, MainState.reconnects]

theorem plays_of_introducing {pr : Process} {k client : Socket} {R : Role} {m : NewLeaderMsg}
    {peer : PeerId} {rest : List PeerId} {tempAlivePeers : OrderedSet PeerId}
    (place : pr.main = .introduce m peer client rest tempAlivePeers) (plays : pr.Plays k R) :
    k = client ∧ R = .introduces ∨ ∃ p, pr.service.tcpClientMap p = some k ∧ R = .asks := by
  cases plays
  case introduces here =>
    rw [place] at here
    cases here
    exact Or.inl ⟨rfl, rfl⟩
  case introduced found => exact Or.inr ⟨_, found, rfl⟩
  all_goals simp_all [MainState.rules]

theorem not_plays_of_isolated {pr : Process} {k : Socket} {R : Role}
    (isolated : pr.main.isolated = true) : ¬ pr.Plays k R := by
  intro plays
  cases plays with
  | leads place found =>
      revert isolated place
      cases pr.main <;> simp [MainState.rules, MainState.isolated]
  | introduced place found =>
      revert isolated place
      cases pr.main <;> simp [MainState.isolated, MainState.reconnects]
  | follows place found =>
      rw [place] at isolated
      cases isolated
  | answers place found =>
      rw [place] at isolated
      cases isolated
  | greets place =>
      rw [place] at isolated
      cases isolated
  | greeted place found =>
      rw [place] at isolated
      cases isolated
  | introduces place =>
      rw [place] at isolated
      cases isolated
  | asks place unread found =>
      rw [place] at isolated
      cases isolated
  | asked place read found =>
      rw [place] at isolated
      cases isolated

/-- Nothing is owed where no thread is in `modifyGroupMembership`. -/
theorem owed_congr {pr next : Process} {p : PeerId}
    (same : ∀ t, next.owedBy p t = pr.owedBy p t) : next.owed p = pr.owed p := by
  unfold owed
  rw [same, same]

theorem owedBy_of_operation {pr : Process} {p : PeerId} {t : Thread}
    (idle : ∀ operation, pr.operation t = some operation → operation.locked = false) :
    pr.owedBy p t = [] := by
  unfold owedBy
  cases place : pr.operation t with
  | none => rfl
  | some operation => exact owed_of_unlocked (idle operation place) _ _

theorem owed_of_idle {pr : Process} {p : PeerId}
    (idle : ∀ t operation, pr.operation t = some operation → operation.locked = false) :
    pr.owed p = [] := by
  unfold owed
  rw [owedBy_of_operation (idle .main), owedBy_of_operation (idle .detector)]
  rfl

theorem unlocked_of_completing {pr : Process} {operation : Operation}
    (main : pr.main = .completeRequest operation) (unlocked : operation.locked = false)
    (idle : pr.detector = none) :
    ∀ t operation, pr.operation t = some operation → operation.locked = false := by
  intro t operation' place
  rcases operation_cases place with ⟨rfl, here⟩ | ⟨rfl, here⟩ | ⟨rfl, here⟩
  · rw [main] at here
    cases here
  · rw [main] at here
    cases here
    exact unlocked
  · rw [idle] at here
    cases here

theorem owed_finishOperation {pr : Process} {t : Thread} {operation : Operation} {p : PeerId}
    (place : pr.operation t = some operation)
    (ended : operation.owed pr.service.alivePeers p = []) :
    (pr.finishOperation t).owed p = pr.owed p := by
  have moved := operation_finishOperation place
  obtain ⟨_, service⟩ := service_finishOperation pr t
  apply owed_congr
  intro t'
  unfold owedBy
  rw [moved, service]
  split
  · rename_i here
    rw [here, place]
    exact ended.symm
  · rfl

/-- A step of a thread to another place in `modifyGroupMembership` that owes what was owed. -/
theorem plays_setOperation {pr data : Process} (tidy : pr.Tidy) {t : Thread}
    {operation next : Operation} (place : pr.operation t = some operation) {k : Socket} {R : Role}
    (plays : (data.setOperation next t).Plays k R) (main : data.main = pr.main)
    (tcpClientMap : ∀ p k, data.service.tcpClientMap p = some k →
      pr.service.tcpClientMap p = some k)
    (owed : ∀ p, (data.setOperation next t).owed p = pr.owed p) : pr.Plays k R := by
  have rules := tidy.rules place
  obtain ⟨p, found, rfl⟩ := plays_of_rules (rules_setOperation (by rw [main]; exact rules)) plays
  rw [service_setOperation] at found
  rw [owed]
  exact .leads rules (tcpClientMap p k found)

end Process

open Process

/-- How the network meets an effect when nothing is exchanged. -/
def Label.quiet : Label → Prop
  | silent _ => True
  | failed _ _ => True
  | lost _ => True
  | refused _ => True
  | _ => False

/-- **No role is taken up** by a step that neither sends nor receives, connects or accepts. -/
theorem ThreadStep.plays_quiet {pr next : Process} {t : Thread} {label : Label}
    (step : ThreadStep pr t label next) (quiet : label.quiet) (sound : pr.Sound) (tidy : pr.Tidy)
    {k : Socket} {R : Role} (plays : next.Plays k R) : pr.Plays k R := by
  cases step with
  | dies _ => exact (not_plays_of_isolated rfl plays).elim
  | call place =>
      exact plays_setOperation tidy place plays rfl (fun _ _ found => found)
        (owed_goOn place rfl rfl rfl fun _ => rfl)
  | @lock t m place free =>
      have unlocked : ∀ operation', pr.operation t.other = some operation' →
          operation'.locked = false := fun _ other =>
        locked_eq_false_of_free free t.other_ne other
      have modifies : pr.Modifies (pr.beginOperation m) t := Modifies.beginOperation m
      refine plays_setOperation tidy place plays rfl modifies.tcpClientMap ?_
      intro p
      rw [owed_setOperation (pr.beginOperation m) place rfl rfl unlocked,
        owed_eq_of_alone place fun _ other => owed_of_unlocked (unlocked _ other) _ _]
      exact if_neg fun both => both.2 both.1
  | requestsSent place =>
      refine plays_setOperation tidy place plays rfl (fun _ _ found => found) ?_
      intro p
      rw [owed_setOperation _ place rfl rfl (fun _ => sound.unlocked place rfl),
        sound.owed_eq place rfl]
      unfold Operation.owed
      simp only [List.not_mem_nil, not_false_eq_true, and_true]
      exact if_congr Iff.rfl rfl rfl
  | @newView t m place =>
      refine plays_setOperation tidy place plays rfl (fun _ _ found => found) ?_
      intro p
      rw [owed_setOperation (pr.endOperation m) place rfl rfl (fun _ => sound.unlocked place rfl),
        sound.owed_eq place rfl]
      rfl
  | printNewlyInstalledView place free =>
      exact plays_setOperation tidy place plays rfl (fun _ _ found => found)
        (owed_goOn place rfl rfl rfl fun _ => rfl)
  | sendNewViewMsg place =>
      exact plays_setOperation tidy place plays rfl (fun _ _ found => found)
        (owed_goOn place rfl rfl rfl fun _ => rfl)
  | lockView place free =>
      exact plays_setOperation tidy place plays rfl (fun _ _ found => found)
        (owed_goOn place rfl rfl rfl fun _ => rfl)
  | delivered place =>
      have rules : (pr.finishOperation t).main.rules = true := by
        rcases pr.main_finishOperation t with same | accepts
        · rw [same]
          exact tidy.rules place
        · rw [accepts]
          rfl
      obtain ⟨p, found, rfl⟩ := plays_of_rules rules plays
      obtain ⟨_, service⟩ := service_finishOperation pr t
      rw [service] at found
      rw [owed_finishOperation place rfl]
      exact .leads (tidy.rules place) found
  | skipMyself place => exact (not_plays_of_isolated rfl plays).elim
  | noLeaderThere place other => exact (not_plays_of_isolated rfl plays).elim
  | noLeaderFound place =>
      obtain ⟨p, found, _⟩ := plays_of_rules rfl plays
      have missing := sound.searching [] place p
      dsimp only at found
      rw [missing] at found
      cases found
  | startAsLeader place free =>
      obtain ⟨p, found, rfl⟩ := plays_of_rules rfl plays
      have same : Process.owed { pr.install with main := .accept } p = pr.owed p := by
        apply owed_congr
        intro t
        cases t with
        | main =>
            unfold owedBy operation
            rw [place]
            rfl
        | detector => rfl
      rw [same]
      exact .leads (by rw [place]; rfl) found
  | leaderLost place found => exact (not_plays_of_isolated rfl plays).elim
  | okMsgFailed place found => exact (not_plays_of_isolated rfl plays).elim
  | waitForLeaderCrash place crashed => exact (not_plays_of_isolated rfl plays).elim
  | handleLeaderCrash place idle =>
      unfold Process.handleLeaderCrash at plays
      dsimp only at plays
      split at plays
      · obtain ⟨p, found, _⟩ := plays_of_reconnecting rfl plays
        cases found
      · exact (not_plays_of_isolated rfl plays).elim
  | unreachable place =>
      obtain ⟨p, found, rfl⟩ := plays_of_reconnecting rfl plays
      exact .introduced (by rw [place]; rfl) found
  | reconnected place =>
      obtain ⟨p, found, ⟨_, rfl⟩ | ⟨unread, _⟩⟩ := plays_of_asking rfl plays
      · exact .introduced (by rw [place]; rfl) found
      · have reached := tidy.reached (by rw [place]; rfl) p (by
          dsimp only at found
          rw [found]
          exact Option.some_ne_none _)
        rw [place] at reached
        exact absurd reached unread
  | introduceFailed place =>
      obtain ⟨p, found, rfl⟩ := plays_of_reconnecting rfl plays
      exact .introduced (by rw [place]; rfl) found
  | notConnected place missing =>
      obtain ⟨p, found, ⟨unread, rfl⟩ | ⟨read, rfl⟩⟩ := plays_of_asking rfl plays
      · exact .asks place (List.mem_cons_of_mem _ unread) found
      · refine .asked place ?_ found
        intro mem
        rcases List.mem_cons.mp mem with rfl | mem
        · dsimp only at found
          rw [missing] at found
          cases found
        · exact read mem
  | completeRequest place pending =>
      obtain ⟨p, found, rfl⟩ := plays_of_rules rfl plays
      have idle := tidy.idle (by rw [place]; rfl)
      rw [owed_of_idle]
      · exact .asked place List.not_mem_nil found
      · exact unlocked_of_completing rfl rfl idle
  | nothingPending place nothing =>
      obtain ⟨p, found, rfl⟩ := plays_of_rules rfl plays
      have idle := tidy.idle (by rw [place]; rfl)
      rw [owed_of_idle]
      · exact .asked place List.not_mem_nil found
      · exact unlocked_of_completing rfl rfl idle
  | sendRequestMsg place found => exact quiet.elim
  | waitForOkMsg place found expected => exact quiet.elim
  | deliver place found => exact quiet.elim
  | leaderFound place other => exact quiet.elim
  | accept place => exact quiet.elim
  | followerReceives place found free => exact quiet.elim
  | sendOkMsg place found => exact quiet.elim
  | reconnect place => exact quiet.elim
  | introduce place => exact quiet.elim
  | pendingRequest place found => exact quiet.elim
  | waitForNewLeaderMsg place => exact quiet.elim
  | greet place => exact quiet.elim
  | sendPendingRequestMsg place found => exact quiet.elim

/-! ## The threads stay tidy -/

namespace Process

theorem Tidy.of_idle {pr : Process} (detector : pr.detector = none)
    (main : pr.operation .main = none)
    (reached : pr.main.reconnects = true → ∀ p, pr.service.tcpClientMap p ≠ none →
      p ∈ pr.main.reached)
    (asking : ∀ rest m, pr.main = .waitForPendingRequestMsg rest m → rest.Nodup) : pr.Tidy := by
  refine ⟨fun busy => absurd detector busy, reached, asking, ?_⟩
  intro t operation place
  cases t with
  | main =>
      rw [main] at place
      cases place
  | detector =>
      change pr.detector = _ at place
      rw [detector] at place
      cases place

/-- Where a process neither leads nor takes over, only the idle failure detector counts. -/
theorem Tidy.of_quiet {pr : Process} (detector : pr.detector = none)
    (rules : pr.main.rules = false) (reconnects : pr.main.reconnects = false)
    (asks : ∀ rest m, pr.main ≠ .waitForPendingRequestMsg rest m) : pr.Tidy := by
  refine .of_idle detector ?_ ?_ fun rest m place => absurd place (asks rest m)
  · unfold operation
    dsimp only
    split
    · rename_i here
      rw [here] at rules
      cases rules
    · rename_i here
      rw [here] at rules
      cases rules
    · rfl
  · intro now
    rw [reconnects] at now
    cases now

/-- A process with members of its own neither connects nor asks. -/
theorem Tidy.of_rules {pr : Process} (rules : pr.main.rules = true)
    (deleting : pr.detector ≠ none → pr.main.serves = true)
    (addresses : ∀ t operation, pr.operation t = some operation →
      Addresses pr.service operation) : pr.Tidy := by
  refine ⟨deleting, ?_, ?_, addresses⟩
  · intro reconnects
    revert rules reconnects
    cases pr.main <;> simp [MainState.rules, MainState.reconnects]
  · intro rest m here
    rw [here] at rules
    cases rules

theorem Tidy.accepts {pr : Process}
    (main : pr.main = .accept ∨ ∃ p o, pr.main = .addPeer (.call p o))
    (addresses : ∀ operation, pr.detector = some operation → Addresses pr.service operation) :
    pr.Tidy := by
  have serves : pr.main.serves = true := by
    rcases main with main | ⟨_, _, main⟩
    · rw [main]
      rfl
    · rw [main]
      rfl
  refine .of_rules (rules_of_serves serves) (fun _ => serves) ?_
  intro t operation' place
  rcases operation_cases place with ⟨rfl, here⟩ | ⟨rfl, here⟩ | ⟨rfl, here⟩
  · rcases main with main | ⟨_, _, main⟩
    · rw [main] at here
      cases here
    · rw [main] at here
      cases here
      exact trivial
  · rw [here] at serves
    cases serves
  · exact addresses operation' here

theorem Tidy.completes {pr : Process} {operation : Operation}
    (main : pr.main = .completeRequest operation) (addresses : Addresses pr.service operation)
    (idle : pr.detector = none) : pr.Tidy := by
  refine .of_rules (by rw [main]; rfl) (fun busy => absurd idle busy) ?_
  intro t operation' place
  rcases operation_cases place with ⟨rfl, here⟩ | ⟨rfl, here⟩ | ⟨rfl, here⟩
  · rw [main] at here
    cases here
  · rw [main] at here
    cases here
    exact addresses
  · rw [idle] at here
    cases here

theorem Tidy.setOperation {pr : Process} (tidy : pr.Tidy) {t : Thread}
    {operation next : Operation} (place : pr.operation t = some operation) (data : Process)
    (main : data.main = pr.main) (detector : data.detector = pr.detector)
    (addresses : Addresses data.service next)
    (others : ∀ operation', pr.operation t.other = some operation' →
      Addresses data.service operation') : (data.setOperation next t).Tidy := by
  have rules : (data.setOperation next t).main.rules = true :=
    rules_setOperation (by rw [main]; exact tidy.rules place)
  refine .of_rules rules ?_ ?_
  · rcases operation_cases place with ⟨rfl, here⟩ | ⟨rfl, here⟩ | ⟨rfl, here⟩
    · rw [setOperation_addPeer (main.trans here)]
      exact fun _ => rfl
    · rw [setOperation_completeRequest (main.trans here)]
      intro busy
      exact absurd (detector.trans (tidy.idle (by rw [here]; rfl))) busy
    · intro _
      change data.main.serves = true
      rw [main]
      exact tidy.deleting (by rw [here]; exact Option.some_ne_none _)
  · intro t' operation' here
    rw [operation_setOperation place main detector] at here
    rw [service_setOperation]
    split at here
    · cases here
      exact addresses
    · rename_i apart
      rw [Thread.eq_other apart] at here
      exact others operation' here

/-- A step inside or outside the blocks that leaves the data alone. -/
theorem Tidy.goOn {pr : Process} (tidy : pr.Tidy) {t : Thread} {operation next : Operation}
    (place : pr.operation t = some operation) (addresses : Addresses pr.service next) :
    (pr.setOperation next t).Tidy :=
  tidy.setOperation place pr rfl rfl addresses fun operation' => tidy.addresses _ operation'

theorem Tidy.tick {pr : Process} (tidy : pr.Tidy) {order : List PeerId}
    (serves : pr.startsDeletion order = true → pr.main.serves = true) : (pr.tick order).Tidy := by
  obtain ⟨deleting, reached, asking, addresses⟩ := tidy
  unfold Process.tick
  dsimp only
  split
  · rename_i crashedPeerId reported
    unfold handlePeerFailure
    split
    · rename_i isLeader
      refine ⟨fun _ => serves ?_, reached, asking, ?_⟩
      · rw [startsDeletion, reported, Bool.and_eq_true]
        exact ⟨decide_eq_true isLeader, rfl⟩
      · intro t operation place
        cases t with
        | main => exact addresses .main operation place
        | detector =>
            cases place
            exact trivial
    · split
      · exact ⟨deleting, reached, asking, addresses⟩
      · exact ⟨deleting, reached, asking, addresses⟩
  · exact ⟨deleting, reached, asking, addresses⟩

theorem addresses_insertClient {service : MembershipService Socket} {operation : Operation}
    (addresses : Addresses service operation) (p : PeerId) (client : Socket) :
    Addresses (service.insertClient p client) operation := by
  have more : ∀ q, service.tcpClientMap q ≠ none →
      (service.insertClient p client).tcpClientMap q ≠ none := by
    intro q found
    unfold insertClient
    dsimp only
    rw [Function.update_apply]
    split
    · exact Option.some_ne_none _
    · exact found
  cases operation
  case sendRequestMsg m rest =>
    obtain ⟨nodup, alive, sent⟩ := addresses
    exact ⟨nodup, alive, fun q mem read => more q (sent q mem read)⟩
  case waitForOkMsg m rest =>
    obtain ⟨nodup, connected⟩ := addresses
    exact ⟨nodup, fun q mem => more q (connected q mem)⟩
  all_goals trivial

end Process

/-- The threads stay tidy in every step. -/
theorem ThreadStep.tidy {pr next : Process} {t : Thread} {label : Label}
    (step : ThreadStep pr t label next) (sound : pr.Sound) (tidy : pr.Tidy) : next.Tidy := by
  cases step with
  | dies _ => exact .of_quiet rfl rfl rfl fun _ _ same => by cases same
  | call place =>
      exact tidy.setOperation place { pr with service := pr.service.countRequest } rfl rfl trivial
        fun operation' other => tidy.addresses _ operation' other
  | @lock t m place free =>
      refine tidy.setOperation place (pr.beginOperation m) rfl rfl ?_ ?_
      · exact ⟨(pr.beginOperation m).service.alivePeers.nodup, fun _ mem => mem,
          fun _ mem unread => absurd mem unread⟩
      · intro operation' other
        exact addresses_of_unlocked (locked_eq_false_of_free free t.other_ne other) _
  | @sendRequestMsg t m p rest client place found =>
      obtain ⟨nodup, alive, sent⟩ := tidy.addresses _ _ place
      rw [List.nodup_cons] at nodup
      refine tidy.goOn place ⟨nodup.2, fun q mem => alive q (List.mem_cons_of_mem _ mem), ?_⟩
      intro q mem unread
      by_cases here : q = p
      · rw [here, found]
        exact Option.some_ne_none _
      · apply sent q mem
        intro mem'
        rcases List.mem_cons.mp mem' with same | later
        · exact here same
        · exact unread later
  | requestsSent place =>
      obtain ⟨_, _, sent⟩ := tidy.addresses _ _ place
      exact tidy.goOn place ⟨pr.service.alivePeers.nodup, fun q mem =>
        sent q mem List.not_mem_nil⟩
  | waitForOkMsg place found expected =>
      obtain ⟨nodup, connected⟩ := tidy.addresses _ _ place
      rw [List.nodup_cons] at nodup
      exact tidy.goOn place ⟨nodup.2, fun q mem => connected q (List.mem_cons_of_mem _ mem)⟩
  | @newView t m place =>
      refine tidy.setOperation place (pr.endOperation m) rfl rfl trivial ?_
      intro operation' other
      exact addresses_of_unlocked (sound.unlocked place rfl other) _
  | printNewlyInstalledView place free => exact tidy.goOn place trivial
  | sendNewViewMsg place => exact tidy.goOn place trivial
  | lockView place free => exact tidy.goOn place trivial
  | deliver place found => exact tidy.goOn place trivial
  | delivered place =>
      rcases operation_cases place with ⟨rfl, main⟩ | ⟨rfl, main⟩ | ⟨rfl, detector⟩
      · rw [finishOperation_addPeer main]
        exact .accepts (Or.inl rfl) fun operation' other =>
          tidy.addresses .detector operation' other
      · rw [finishOperation_completeRequest main]
        exact .accepts (Or.inl rfl) fun operation' other =>
          tidy.addresses .detector operation' other
      · refine ⟨fun busy => absurd rfl busy, tidy.reached, tidy.asking, ?_⟩
        intro t' operation' here
        cases t' with
        | main => exact tidy.addresses .main operation' here
        | detector => cases here
  | skipMyself place =>
      exact .of_quiet (tidy.idle (by rw [place]; rfl)) rfl rfl fun _ _ same => by cases same
  | leaderFound place other =>
      exact .of_quiet (tidy.idle (by rw [place]; rfl)) rfl rfl fun _ _ same => by cases same
  | noLeaderThere place other =>
      exact .of_quiet (tidy.idle (by rw [place]; rfl)) rfl rfl fun _ _ same => by cases same
  | noLeaderFound place =>
      exact .of_idle (tidy.idle (by rw [place]; rfl)) rfl (fun same => by cases same)
        fun _ _ same => by cases same
  | startAsLeader place free =>
      exact .accepts (Or.inl rfl) fun operation' other => tidy.addresses .detector operation' other
  | accept place =>
      refine .accepts (Or.inr ⟨_, _, rfl⟩) fun operation' other => ?_
      exact addresses_insertClient (tidy.addresses .detector operation' other) _ _
  | @followerReceives client m place found free =>
      have idle := tidy.idle (by rw [place]; rfl)
      cases m with
      | request m => exact .of_quiet idle rfl rfl fun _ _ same => by cases same
      | newView m =>
          have main : (pr.followerReceives (.newView m)).main = .startAsFollower := place
          exact .of_quiet idle (by rw [main]; rfl) (by rw [main]; rfl)
            fun _ _ same => by rw [main] at same; cases same
      | ok m => exact .of_quiet rfl rfl rfl fun _ _ same => by cases same
      | newLeader m => exact .of_quiet rfl rfl rfl fun _ _ same => by cases same
  | leaderLost place found =>
      exact .of_quiet (tidy.idle (by rw [place]; rfl)) rfl rfl fun _ _ same => by cases same
  | sendOkMsg place found =>
      exact .of_quiet (tidy.idle (by rw [place]; rfl)) rfl rfl fun _ _ same => by cases same
  | okMsgFailed place found =>
      exact .of_quiet (tidy.idle (by rw [place]; rfl)) rfl rfl fun _ _ same => by cases same
  | waitForLeaderCrash place crashed =>
      exact .of_quiet (tidy.idle (by rw [place]; rfl)) rfl rfl fun _ _ same => by cases same
  | handleLeaderCrash place idle =>
      unfold Process.handleLeaderCrash
      dsimp only
      split
      · exact .of_idle idle rfl (fun _ _ found => absurd rfl found) fun _ _ same => by cases same
      · exact .of_quiet idle rfl rfl fun _ _ same => by cases same
  | reconnect place =>
      have reached := tidy.reached (by rw [place]; rfl)
      rw [place] at reached
      exact .of_idle (tidy.idle (by rw [place]; rfl)) rfl (fun _ => reached)
        fun _ _ same => by cases same
  | unreachable place =>
      have reached := tidy.reached (by rw [place]; rfl)
      rw [place] at reached
      exact .of_idle (tidy.idle (by rw [place]; rfl)) rfl (fun _ => reached)
        fun _ _ same => by cases same
  | @reconnected newLeaderMsg tempAlivePeers place =>
      refine .of_idle (tidy.idle (by rw [place]; rfl)) rfl (fun same => by cases same) ?_
      intro rest m same
      cases same
      exact tempAlivePeers.nodup
  | @introduce newLeaderMsg peer rest tempAlivePeers client place =>
      have reached := tidy.reached (by rw [place]; rfl)
      rw [place] at reached
      refine .of_idle (tidy.idle (by rw [place]; rfl)) rfl (fun _ p found => ?_)
        fun _ _ same => by cases same
      apply OrderedSet.mem_insert.mpr
      by_cases same : p = peer
      · exact Or.inl same
      · right
        apply reached
        unfold insertClient at found
        dsimp only at found
        rwa [Function.update_of_ne same] at found
  | introduceFailed place =>
      have reached := tidy.reached (by rw [place]; rfl)
      rw [place] at reached
      exact .of_idle (tidy.idle (by rw [place]; rfl)) rfl (fun _ => reached)
        fun _ _ same => by cases same
  | pendingRequest place found =>
      have nodup := tidy.asking _ _ place
      refine .of_idle (tidy.idle (by rw [place]; rfl)) rfl (fun same => by cases same) ?_
      intro rest m same
      cases same
      exact (List.nodup_cons.mp nodup).2
  | notConnected place missing =>
      have nodup := tidy.asking _ _ place
      refine .of_idle (tidy.idle (by rw [place]; rfl)) rfl (fun same => by cases same) ?_
      intro rest m same
      cases same
      exact (List.nodup_cons.mp nodup).2
  | completeRequest place pending =>
      exact .completes rfl trivial (tidy.idle (by rw [place]; rfl))
  | nothingPending place nothing =>
      exact .completes rfl trivial (tidy.idle (by rw [place]; rfl))
  | waitForNewLeaderMsg place =>
      exact .of_quiet (tidy.idle (by rw [place]; rfl)) rfl rfl fun _ _ same => by cases same
  | greet place =>
      exact .of_quiet (tidy.idle (by rw [place]; rfl)) rfl rfl fun _ _ same => by cases same
  | sendPendingRequestMsg place found =>
      exact .of_quiet (tidy.idle (by rw [place]; rfl)) rfl rfl fun _ _ same => by cases same

/-! ## Sending and reading -/

/-- At `k` a process goes from one role to another, and elsewhere it takes up none. -/
structure Process.Moves (pr next : Process) (k : Socket) (R R₂ : Role) : Prop where
  plays : pr.Plays k R
  becomes : ∀ Q, next.Plays k Q → Q = R₂
  others : ∀ k' ≠ k, ∀ Q, next.Plays k' Q → pr.Plays k' Q

theorem Process.owed_sendRequestMsg {m : RequestMsg} {p q : PeerId}
    {rest : List PeerId} {alivePeers : OrderedSet PeerId} (apart : q ≠ p) :
    (Operation.sendRequestMsg m rest).owed alivePeers q =
      (Operation.sendRequestMsg m (p :: rest)).owed alivePeers q := by
  unfold Operation.owed
  dsimp only
  have same : q ∉ rest ↔ q ∉ p :: rest := by
    rw [List.mem_cons, not_or]
    exact ⟨fun absent => ⟨apart, absent⟩, And.right⟩
  exact if_congr (and_congr_right fun _ => same) rfl rfl

/-- **What a process sends** is a step of the role it plays. -/
theorem ThreadStep.plays_sent {pr next : Process} {t : Thread} {k : Socket} {m : Msg}
    (step : ThreadStep pr t (.sent k m) next) (sound : pr.Sound) (tidy : pr.Tidy)
    (separated : pr.Separated) : ∃ R R₂, Sends R m R₂ ∧ pr.Moves next k R R₂ := by
  cases step with
  | dies fatal => exact fatal.elim
  | @sendRequestMsg _ m p rest _ place found =>
      obtain ⟨nodup, alive, _⟩ := tidy.addresses _ _ place
      rw [List.nodup_cons] at nodup
      have rules := tidy.rules place
      have before : pr.owed p = [] := by
        rw [sound.owed_eq place rfl]
        exact if_neg fun both => both.2 List.mem_cons_self
      have after : ∀ q, (pr.setOperation (.sendRequestMsg m rest) t).owed q =
          (Operation.sendRequestMsg m rest).owed pr.service.alivePeers q :=
        owed_setOperation pr place rfl rfl fun _ => sound.unlocked place rfl
      refine ⟨_, _, .request m, ?_, ?_, ?_⟩
      · rw [← before]
        exact .leads rules found
      · intro Q plays
        obtain ⟨q, found', rfl⟩ := plays_of_rules (rules_setOperation rules) plays
        rw [service_setOperation] at found'
        rw [after, separated q p k found' found]
        exact congrArg Role.leads (if_pos ⟨alive p List.mem_cons_self, nodup.1⟩)
      · intro k' apart Q plays
        obtain ⟨q, found', rfl⟩ := plays_of_rules (rules_setOperation rules) plays
        rw [service_setOperation] at found'
        have other : q ≠ p := by
          rintro rfl
          rw [found] at found'
          exact apart (Option.some.inj found').symm
        rw [after, owed_sendRequestMsg other, ← sound.owed_eq place rfl]
        exact .leads rules found'
  | @deliver _ m p rest _ place found =>
      have rules := tidy.rules place
      have same : ∀ q, (pr.setOperation (.deliver m rest) t).owed q = pr.owed q :=
        owed_goOn place rfl rfl rfl fun _ => rfl
      refine ⟨_, _, .newView m _, .leads rules found, ?_, ?_⟩
      · intro Q plays
        obtain ⟨q, found', rfl⟩ := plays_of_rules (rules_setOperation rules) plays
        rw [service_setOperation] at found'
        rw [same, separated q p k found' found]
      · intro k' _ Q plays
        exact plays_setOperation tidy place plays rfl (fun _ _ found => found) same
  | sendOkMsg place found =>
      refine ⟨_, _, .ok _, .answers place found, ?_, ?_⟩
      · intro Q plays
        exact (plays_of_following rfl plays).2
      · intro k' apart Q plays
        have found' := (plays_of_following rfl plays).1
        dsimp only at found'
        rw [found] at found'
        exact absurd (Option.some.inj found').symm apart
  | introduce place =>
      refine ⟨_, _, .newLeader _, .introduces place, ?_, ?_⟩
      · intro Q plays
        obtain ⟨p, _, same⟩ := plays_of_reconnecting rfl plays
        exact same
      · intro k' apart Q plays
        obtain ⟨p, found, rfl⟩ := plays_of_reconnecting rfl plays
        rcases insertClient_cases found with before | ⟨_, new⟩
        · exact .introduced (by rw [place]; rfl) before
        · exact absurd new apart
  | sendPendingRequestMsg place found =>
      refine ⟨_, _, .pendingRequest _, .greeted place found, ?_, ?_⟩
      · intro Q plays
        exact (plays_of_following rfl plays).2
      · intro k' apart Q plays
        have found' := (plays_of_following rfl plays).1
        dsimp only at found'
        rw [found] at found'
        exact absurd (Option.some.inj found').symm apart

theorem Process.owed_waitForOkMsg {m : RequestMsg} {p q : PeerId} {rest : List PeerId}
    {alivePeers : OrderedSet PeerId} (apart : q ≠ p) :
    (Operation.waitForOkMsg m rest).owed alivePeers q =
      (Operation.waitForOkMsg m (p :: rest)).owed alivePeers q := by
  unfold Operation.owed
  dsimp only
  have same : q ∈ rest ↔ q ∈ p :: rest := by
    rw [List.mem_cons]
    exact ⟨Or.inr, fun mem => mem.resolve_left apart⟩
  exact if_congr same rfl rfl

/-- **What a process reads** is a step of the role it plays, unless it ends the process. -/
theorem ThreadStep.plays_received {pr next : Process} {t : Thread} {k : Socket} {m : Msg}
    (step : ThreadStep pr t (.received k m) next) (sound : pr.Sound) (tidy : pr.Tidy)
    (separated : pr.Separated) :
    next = pr.terminate ∨ ∃ R R₂, Reads R m R₂ ∧ pr.Moves next k R R₂ := by
  cases step with
  | dies _ => exact Or.inl rfl
  | @waitForOkMsg _ m p rest _ okMsg place found expected =>
      obtain ⟨nodup, _⟩ := tidy.addresses _ _ place
      rw [List.nodup_cons] at nodup
      have rules := tidy.rules place
      have before : pr.owed p = [okMsg.requestId] := by
        rw [sound.owed_eq place rfl, expected]
        exact if_pos List.mem_cons_self
      have after : ∀ q, (pr.setOperation (.waitForOkMsg m rest) t).owed q =
          (Operation.waitForOkMsg m rest).owed pr.service.alivePeers q :=
        owed_setOperation pr place rfl rfl fun _ => sound.unlocked place rfl
      refine Or.inr ⟨_, _, .ok okMsg, ?_, ?_, ?_⟩
      · rw [← before]
        exact .leads rules found
      · intro Q plays
        obtain ⟨q, found', rfl⟩ := plays_of_rules (rules_setOperation rules) plays
        rw [service_setOperation] at found'
        rw [after, separated q p k found' found]
        exact congrArg Role.leads (if_neg nodup.1)
      · intro k' apart Q plays
        obtain ⟨q, found', rfl⟩ := plays_of_rules (rules_setOperation rules) plays
        rw [service_setOperation] at found'
        have other : q ≠ p := by
          rintro rfl
          rw [found] at found'
          exact apart (Option.some.inj found').symm
        rw [after, owed_waitForOkMsg other, ← sound.owed_eq place rfl]
        exact .leads rules found'
  | followerReceives place found free =>
      have elsewhere : ∀ {next : Process} {k' : Socket}, k' ≠ k →
          next.service.leaderPeerId = pr.service.leaderPeerId →
          next.service.tcpClientMap = pr.service.tcpClientMap →
          next.service.tcpClientMap next.service.leaderPeerId ≠ some k' := by
        intro next k' apart leader map found'
        rw [leader, map, found] at found'
        exact apart (Option.some.inj found').symm
      cases m with
      | request m =>
          refine Or.inr ⟨_, _, .request m, .follows place found, ?_, ?_⟩
          · intro Q plays
            exact (plays_of_answering rfl plays).2
          · intro k' apart Q plays
            exact absurd (plays_of_answering rfl plays).1 (elsewhere apart rfl rfl)
      | newView m =>
          have main : (pr.followerReceives (.newView m)).main = .startAsFollower := place
          refine Or.inr ⟨_, _, .newView m, .follows place found, ?_, ?_⟩
          · intro Q plays
            exact (plays_of_following main plays).2
          · intro k' apart Q plays
            exact absurd (plays_of_following main plays).1 (elsewhere apart rfl rfl)
      | ok m => exact Or.inl rfl
      | newLeader m => exact Or.inl rfl
  | pendingRequest place found =>
      have nodup := tidy.asking _ _ place
      rw [List.nodup_cons] at nodup
      refine Or.inr ⟨_, _, .pendingRequest _, .asks place List.mem_cons_self found, ?_, ?_⟩
      · intro Q plays
        obtain ⟨q, found', ⟨unread, _⟩ | ⟨_, same⟩⟩ := plays_of_asking rfl plays
        · have here := separated _ _ k found' found
          rw [here] at unread
          exact absurd unread nodup.1
        · exact same
      · intro k' apart Q plays
        obtain ⟨q, found', ⟨unread, rfl⟩ | ⟨read, rfl⟩⟩ := plays_of_asking rfl plays
        · exact .asks place (List.mem_cons_of_mem _ unread) found'
        · refine .asked place ?_ found'
          intro mem
          rcases List.mem_cons.mp mem with rfl | mem
          · dsimp only at found'
            rw [found] at found'
            exact apart (Option.some.inj found').symm
          · exact read mem
  | greet place =>
      have only := sound.greeting k place
      refine Or.inr ⟨_, _, .newLeader _, .greets place, ?_, ?_⟩
      · intro Q plays
        exact (plays_of_greeted rfl plays).2
      · intro k' apart Q plays
        exact absurd (only k' (plays_of_greeted rfl plays).1) apart

/-- What a process plays where it has just connected, and elsewhere. -/
theorem ThreadStep.plays_connected {pr next : Process} {t : Thread} {peer : PeerId} {k : Socket}
    (step : ThreadStep pr t (.connected peer k) next) (sound : pr.Sound)
    (fresh : ∀ p, pr.service.tcpClientMap p ≠ some k) :
    (∀ Q, next.Plays k Q → Q = .member [] ∧ pr.main.reconnects = false ∨
      Q = .introduces ∧ pr.main.reconnects = true) ∧
        ∀ k' ≠ k, ∀ Q, next.Plays k' Q → pr.Plays k' Q := by
  cases step with
  | dies fatal => exact fatal.elim
  | @leaderFound _ rest _ place other =>
      refine ⟨?_, ?_⟩
      · intro Q plays
        exact Or.inl ⟨(plays_of_following rfl plays).2, by rw [place]; rfl⟩
      · intro k' apart Q plays
        rcases insertClient_cases (plays_of_following rfl plays).1 with before | ⟨_, new⟩
        · rw [sound.searching _ place] at before
          cases before
        · exact absurd new apart
  | reconnect place =>
      refine ⟨?_, ?_⟩
      · intro Q plays
        rcases plays_of_introducing rfl plays with ⟨_, same⟩ | ⟨p, found, _⟩
        · exact Or.inr ⟨same, by rw [place]; rfl⟩
        · exact absurd found (fresh p)
      · intro k' apart Q plays
        rcases plays_of_introducing rfl plays with ⟨here, _⟩ | ⟨p, found, rfl⟩
        · exact absurd here apart
        · exact .introduced (by rw [place]; rfl) found

/-- Nothing is owed to a peer without a connection. -/
theorem Process.Tidy.owed_of_missing {pr : Process} (tidy : pr.Tidy) {p : PeerId}
    (missing : pr.service.tcpClientMap p = none) : pr.owed p = [] := by
  have by_thread : ∀ t, pr.owedBy p t = [] := by
    intro t
    unfold owedBy
    cases place : pr.operation t with
    | none => rfl
    | some operation =>
        have addresses := tidy.addresses t operation place
        cases operation
        case sendRequestMsg m rest =>
          exact if_neg fun both => addresses.2.2 p both.1 both.2 missing
        case waitForOkMsg m rest =>
          exact if_neg fun mem => addresses.2 p mem missing
        all_goals rfl
  unfold owed
  rw [by_thread, by_thread]
  rfl

/-- What a process plays on a connection that it has accepted, and elsewhere. -/
theorem ThreadStep.plays_accepted {pr next : Process} {t : Thread} {close : Bool} {k : Socket}
    {peer : PeerId} (step : ThreadStep pr t (.accepted close k peer) next) (tidy : pr.Tidy)
    (fresh : ∀ p, pr.service.tcpClientMap p ≠ some k) :
    (∀ Q, next.Plays k Q → Q = .leads [] ∧ pr.main = .accept ∨
      Q = .greets ∧ pr.main = .waitForNewLeaderMsg) ∧
        ∀ k' ≠ k, ∀ Q, next.Plays k' Q → pr.Plays k' Q := by
  cases step with
  | dies fatal => exact fatal.elim
  | accept place =>
      have same : ∀ q, Process.owed
          { pr with
            service := pr.service.insertClient peer k
            main := .addPeer (.call peer .ADD) } q = pr.owed q := by
        intro q
        apply owed_congr
        intro t
        cases t with
        | main =>
            unfold owedBy operation
            rw [place]
            rfl
        | detector => rfl
      refine ⟨?_, ?_⟩
      · intro Q plays
        obtain ⟨q, found, rfl⟩ := plays_of_rules rfl plays
        rw [same]
        have missing : pr.service.tcpClientMap q = none := by
          rcases insertClient_cases found with before | ⟨rfl, _⟩
          · exact absurd before (fresh q)
          · cases old : pr.service.tcpClientMap q with
            | none => rfl
            | some k' =>
                unfold insertClient at found
                dsimp only at found
                rw [Function.update_self, old] at found
                rw [Option.getD_some] at found
                exact absurd (old.trans found) (fresh q)
        rw [tidy.owed_of_missing missing]
        exact Or.inl ⟨rfl, place⟩
      · intro k' apart Q plays
        obtain ⟨q, found, rfl⟩ := plays_of_rules rfl plays
        rw [same]
        rcases insertClient_cases found with before | ⟨_, new⟩
        · exact .leads (by rw [place]; rfl) before
        · exact absurd new apart
  | waitForNewLeaderMsg place =>
      refine ⟨?_, ?_⟩
      · intro Q plays
        exact Or.inr ⟨(plays_of_greeting rfl plays).2, place⟩
      · intro k' apart Q plays
        exact absurd (plays_of_greeting rfl plays).1 apart

end GroupComm.Lab2
