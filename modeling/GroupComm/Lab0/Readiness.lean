import GroupComm.Lab0.Deserted
import GroupComm.Library.Fairness

/-!
# Every host gets READY

Along a run in which every thread goes on and the network, however often it loses datagrams, does
not lose every copy of one that is sent over and over (`Fair`), all hosts log READY if and only if
no listener leaves before its list of receivers is full, no first `Ack` goes over a closed sender
and of what a host that leaves has answered to a peer something comes through (`all_ready_iff`).

* `Fair.alive_leads` and `Fair.listener_leads` are the rule of ranks for the two threads of a host.
* A host that is still expected has not been answered, so it goes on asking
  (`Fair.often_heard`).  When all listeners have heard everybody, who is still on a list of
  receivers either has left, with an `Ack` on its way, or answers (`Fair.often_acked`).
-/

namespace GroupComm.Lab0

open Filter Transition

/-- What a thread goes on with. -/
inductive Activity where
  | receive (p : Hostname)
  | sendingAckMessages (p : Hostname)
  | alive (p : Hostname)
  | sendMessage (p q : Hostname)
  | closeConnection (p q : Hostname)
  | ready (p : Hostname)

def Message.isAck : Message → Bool
  | alive => false
  | ack _ => true

/-- Whether the sender of the message that is to be answered is there or can be created. -/
def Process.resolves (pr : Process) (resolved : Bool) : Bool :=
  match pr.receive with
  | .sendingAckMessages sender _ => (pr.getUDPSender sender resolved).isSome
  | _ => true

/-- The number of steps until the alive thread is before the test of its loop or done. -/
def AliveState.rank : AliveState → ℕ
  | addToAliveMessageReceiverList rest => rest.length + 2
  | wait => 1
  | test => 0
  | sendMessage rest => rest.card + 1
  | closeConnection rest => rest.card + 1
  | done => 0

/-- A step that the alive thread can take. -/
noncomputable def AliveState.helpful (p : Hostname) : AliveState → Activity
  | sendMessage rest =>
      open Classical in if some : rest.Nonempty then .sendMessage p some.choose else .alive p
  | closeConnection rest =>
      open Classical in if some : rest.Nonempty then .closeConnection p some.choose else .alive p
  | _ => .alive p

/-- The number of steps until the listener is before the test of its loop. -/
def ReceiveState.rank : ReceiveState → ℕ
  | bind => 2
  | signal => 1
  | sendingAckMessages _ _ => 1
  | removeFromAliveMessageReceiverList _ => 1
  | _ => 0

/-- The step that the listener takes. -/
def ReceiveState.helpful (p : Hostname) : ReceiveState → Activity
  | sendingAckMessages _ _ => .sendingAckMessages p
  | _ => .receive p

namespace System

variable {F : Hostfile} {s s' : System} {p q : Hostname} {e : Event}

/-- Event `e` goes on with the activity.  A peer is sent a message when its name resolves, and READY
is logged once. -/
def Serves (a : Activity) (s : System) (e : Event) : Prop :=
  match a with
  | .receive p => e = .receive p
  | .sendingAckMessages p => ∃ resolved, e = .sendingAckMessages p resolved
  | .alive p => e = .alive p
  | .sendMessage p q => e = .sendMessage p q true
  | .closeConnection p q => e = .closeConnection p q
  | .ready p => e = .ready p ∧ (s.processes p).ready = false

/-- The names of those that are answered resolve. -/
def Resolves (s : System) : Event → Prop
  | .sendingAckMessages p resolved => (s.processes p).resolves resolved = true
  | _ => True

instance decidableResolves (s : System) : DecidablePred s.Resolves
  | .sendingAckMessages _ _ => inferInstanceAs (Decidable (_ = true))
  | .receive _ | .receiveMessage _ _ _ | .alive _ | .sendMessage _ _ _ | .closeConnection _ _
  | .ready _ | .lose _ => .isTrue trivial

/-- An `Ack` or an "I am alive" of `q` to `p` is in flight. -/
def InFlight (s : System) (q p : Hostname) (ack : Bool) : Prop :=
  ∃ n ∈ s.inFlight, ∃ m, s.HasSent n q p m ∧ m.isAck = ack

/-- The listener of `p` takes one. -/
def Takes (s : System) (e : Event) (q p : Hostname) (ack : Bool) : Prop :=
  ∃ i copy n m, e = .receiveMessage p i copy ∧ s.inFlight[i]? = some n ∧ s.HasSent n q p m ∧
    m.isAck = ack

/-- Every thread goes on when it can, and a listener that listens again and again takes what is in
flight to it again and again. -/
structure Fair (r : Run (step F) Resolves (initial F)) : Prop where
  threads : r.Fair Serves
  network : ∀ p q ack,
    (∃ᶠ n in atTop, ((r.state n).processes p).receive = .receiveMessage) →
      (∃ᶠ n in atTop, (r.state n).InFlight q p ack) →
        ∃ᶠ n in atTop, ∃ e, r.event n = some e ∧ (r.state n).Takes e q p ack

/-! ## What a thread can do -/

theorem canServe_receive (running : s.running F p)
    (place : ((s.processes p).receive = .bind ∨ (s.processes p).receive = .signal) ∨
      (s.processes p).locked = false ∧ ((s.processes p).receive = .test ∨
        ∃ sender, (s.processes p).receive = .removeFromAliveMessageReceiverList sender)) :
    CanServe (step F) Serves (.receive p) s := by
  refine ⟨.receive p, rfl, ?_⟩
  unfold step
  dsimp only
  rw [if_pos running]
  unfold Process.receiveStep
  rcases place with (place | place) | ⟨free, place | ⟨sender, place⟩⟩
  · simp [place]
  · simp [place]
  · simp only [place, free, Bool.false_eq_true, if_false]
    split
    · simp
    · split <;> simp
  · simp [place, free]

theorem canServe_answer (running : s.running F p) {sender : Hostname} {n : ℕ}
    (place : (s.processes p).receive = .sendingAckMessages sender n) :
    CanServe (step F) Serves (.sendingAckMessages p) s := by
  refine ⟨.sendingAckMessages p true, ⟨true, rfl⟩, ?_⟩
  unfold step
  dsimp only
  rw [if_pos running, place]
  dsimp only
  split <;> simp

theorem canServe_sendMessage (running : s.running F p) {rest : Finset Hostname}
    (place : (s.processes p).alive = .sendMessage rest) (mem : q ∈ rest) :
    CanServe (step F) Serves (.sendMessage p q) s := by
  refine ⟨.sendMessage p q true, rfl, ?_⟩
  unfold step
  dsimp only
  rw [if_pos running, place]
  dsimp only
  rw [if_pos mem]
  split <;> simp

theorem canServe_closeConnection (running : s.running F p) {rest : Finset Hostname}
    (place : (s.processes p).alive = .closeConnection rest) (mem : q ∈ rest) :
    CanServe (step F) Serves (.closeConnection p q) s := by
  refine ⟨.closeConnection p q, rfl, ?_⟩
  unfold step
  dsimp only
  rw [if_pos running, place]
  dsimp only
  rw [if_pos mem]
  simp

theorem canServe_aliveStep (running : s.running F p) (goes : (s.processes p).aliveStep ≠ none) :
    CanServe (step F) Serves (.alive p) s := by
  refine ⟨.alive p, rfl, ?_⟩
  unfold step
  dsimp only
  rw [if_pos running]
  simpa using goes

theorem canServe_alive (running : s.running F p)
    (going : (s.processes p).alive = .wait → (s.processes p).heartbeatReceiverReady = true)
    (undone : (s.processes p).alive ≠ .done) :
    CanServe (step F) Serves ((s.processes p).alive.helpful p) s := by
  cases place : (s.processes p).alive with
  | addToAliveMessageReceiverList rest =>
      refine canServe_aliveStep running ?_
      cases rest <;> simp [Process.aliveStep, place]
  | wait =>
      refine canServe_aliveStep running ?_
      simp [Process.aliveStep, place, going place]
  | test =>
      refine canServe_aliveStep running ?_
      simp only [Process.aliveStep, place]
      split <;> simp
  | sendMessage rest =>
      unfold AliveState.helpful
      dsimp only
      split
      · rename_i some
        exact canServe_sendMessage running place some.choose_spec
      · rename_i none
        refine canServe_aliveStep running ?_
        simp [Process.aliveStep, place, Finset.not_nonempty_iff_eq_empty.mp none]
  | closeConnection rest =>
      unfold AliveState.helpful
      dsimp only
      split
      · rename_i some
        exact canServe_closeConnection running place some.choose_spec
      · rename_i none
        refine canServe_aliveStep running ?_
        simp [Process.aliveStep, place, Finset.not_nonempty_iff_eq_empty.mp none]
  | done => exact absurd place undone

theorem serves_helpful {a : AliveState} (serves : Serves (a.helpful p) s e) :
    e = .alive p ∨ ∃ q, e = .sendMessage p q true ∨ e = .closeConnection p q := by
  cases a with
  | sendMessage rest =>
      unfold AliveState.helpful at serves
      dsimp only at serves
      split at serves
      · exact Or.inr ⟨_, Or.inl serves⟩
      · exact Or.inl serves
  | closeConnection rest =>
      unfold AliveState.helpful at serves
      dsimp only at serves
      split at serves
      · exact Or.inr ⟨_, Or.inr serves⟩
      · exact Or.inl serves
  | _ => exact Or.inl serves

end System

namespace ProcessCases

variable {F : Hostfile} {p q : Hostname} {pr next : Process} {e : Event} {s : System}

theorem not_resolves {sender : Hostname} {answers : ℕ} {resolved : Bool}
    (place : pr.receive = .sendingAckMessages sender answers)
    (unresolved : pr.getUDPSender sender resolved = none) : pr.resolves resolved ≠ true := by
  rw [Process.resolves, place]
  dsimp only
  rw [unresolved]
  exact fun there => by cases there

theorem uncrashed (h : ProcessCases F p pr e next)
    (resolves : ∀ resolved, e = .sendingAckMessages p resolved → pr.resolves resolved = true) :
    next.crashed = pr.crashed := by
  cases h with
  | crash place unresolved => exact absurd (resolves _ rfl) (not_resolves place unresolved)
  | _ => rfl

/-- A step of the alive thread brings it nearer to the test of its loop, but for the test itself. -/
theorem aliveMoves (h : ProcessCases F p pr e next) :
    (next.alive = pr.alive ∧ ∀ s, ¬ System.Serves (pr.alive.helpful p) s e) ∨
      next.alive.rank < pr.alive.rank ∨
        pr.alive = .test ∧ (pr.stopAliveMessageLoop = false ∧
          next.alive = .sendMessage pr.aliveMessageReceivers ∨
            pr.stopAliveMessageLoop = true ∧ next.alive = .closeConnection pr.udpSenders) := by
  cases h with
  | other apart =>
      refine Or.inl ⟨rfl, fun s serves => apart ?_⟩
      rcases System.serves_helpful serves with rfl | ⟨q, rfl | rfl⟩ <;> rfl
  | add place =>
      refine Or.inr (Or.inl ?_)
      rw [place]
      exact Nat.lt_succ_self _
  | added place =>
      refine Or.inr (Or.inl ?_)
      rw [place]
      exact Nat.lt_succ_self _
  | start place =>
      refine Or.inr (Or.inl ?_)
      rw [place]
      exact Nat.lt_succ_self _
  | stop place stopped => exact Or.inr (Or.inr ⟨place, Or.inr ⟨stopped, rfl⟩⟩)
  | round place goes => exact Or.inr (Or.inr ⟨place, Or.inl ⟨goes, rfl⟩⟩)
  | sent place mem =>
      refine Or.inr (Or.inl ?_)
      rw [place]
      exact Nat.succ_lt_succ (Finset.card_erase_lt_of_mem mem)
  | roundDone place =>
      refine Or.inr (Or.inl ?_)
      rw [place]
      exact Nat.zero_lt_succ _
  | close place mem =>
      refine Or.inr (Or.inl ?_)
      rw [place]
      exact Nat.succ_lt_succ (Finset.card_erase_lt_of_mem mem)
  | closed place =>
      refine Or.inr (Or.inl ?_)
      rw [place]
      exact Nat.zero_lt_succ _
  | _ =>
      refine Or.inl ⟨rfl, fun s serves => ?_⟩
      rcases System.serves_helpful serves with away | ⟨q, away | away⟩ <;> cases away

/-- A step of the listener brings it nearer to the test of its loop, but for the test itself and a
message. -/
theorem listenerMoves (h : ProcessCases F p pr e next)
    (resolves : ∀ resolved, e = .sendingAckMessages p resolved → pr.resolves resolved = true) :
    (next.receive = pr.receive ∧ ∀ s, ¬ System.Serves (pr.receive.helpful p) s e) ∨
      next.receive.rank < pr.receive.rank ∨ pr.receive = .receiveMessage ∨
        next.receive = .receiveMessage ∨ next.receive = .left := by
  have quiet (away : e ≠ .receive p ∧ ∀ resolved, e ≠ .sendingAckMessages p resolved) :
      ∀ s, ¬ System.Serves (pr.receive.helpful p) s e := by
    intro s serves
    unfold ReceiveState.helpful at serves
    split at serves
    · obtain ⟨resolved, same⟩ := serves
      exact away.2 resolved same
    · exact away.1 serves
  cases h with
  | other apart =>
      refine Or.inl ⟨rfl, quiet ⟨fun same => apart ?_, fun resolved same => apart ?_⟩⟩
      · rw [same]
        rfl
      · rw [same]
        rfl
  | bind place =>
      refine Or.inr (Or.inl ?_)
      rw [place]
      exact Nat.lt_succ_self _
  | signal place =>
      refine Or.inr (Or.inl ?_)
      rw [place]
      exact Nat.lt_succ_self _
  | listen => exact Or.inr (Or.inr (Or.inr (Or.inl rfl)))
  | leave => exact Or.inr (Or.inr (Or.inr (Or.inr rfl)))
  | remove place =>
      refine Or.inr (Or.inl ?_)
      rw [place]
      exact Nat.lt_succ_self _
  | takeAlive place => exact Or.inr (Or.inr (Or.inl place))
  | takeAck place => exact Or.inr (Or.inr (Or.inl place))
  | answer place =>
      refine Or.inr (Or.inl ?_)
      rw [place]
      exact Nat.lt_succ_self _
  | crash place unresolved => exact absurd (resolves _ rfl) (not_resolves place unresolved)
  | _ => exact Or.inl ⟨rfl, quiet ⟨fun away => (by cases away), fun _ away => (by cases away)⟩⟩

theorem flagged (h : ProcessCases F p pr e next) (old : pr.heartbeatReceiverReady = true) :
    next.heartbeatReceiverReady = true := by
  cases h with
  | signal => rfl
  | _ => exact old

/-- A message is at hand until it is answered. -/
theorem answering (h : ProcessCases F p pr e next) {n : ℕ}
    (place : pr.receive = .sendingAckMessages q n)
    (other : ∀ resolved, e ≠ .sendingAckMessages p resolved) :
    next.receive = .sendingAckMessages q n := by
  cases h with
  | bind place' | signal place' | listen place' | leave place' | remove place' | takeAlive place'
  | takeAck place' =>
      rw [place] at place'
      cases place'
  | answer | crash => exact absurd rfl (other _)
  | _ => exact place

theorem removed (h : ProcessCases F p pr (.receive p) next)
    (place : pr.receive = .removeFromAliveMessageReceiverList q) :
    q ∉ next.aliveMessageReceivers := by
  cases h with
  | other apart => exact absurd rfl apart
  | bind place' | signal place' | listen place' | leave place' =>
      rw [place] at place'
      cases place'
  | remove place' =>
      rw [place] at place'
      cases place'
      exact Finset.notMem_erase _ _

/-- An alive thread that has left its loop stays outside. -/
theorem finishing (h : ProcessCases F p pr e next)
    (past : pr.alive = .done ∨ ∃ rest, pr.alive = .closeConnection rest) :
    next.alive = .done ∨ ∃ rest, next.alive = .closeConnection rest := by
  cases h with
  | add place | added place | start place | round place | sent place | roundDone place =>
      rw [place] at past
      rcases past with past | ⟨_, past⟩ <;> cases past
  | stop | close => exact Or.inr ⟨_, rfl⟩
  | closed => exact Or.inl rfl
  | _ => exact past

theorem done (h : ProcessCases F p pr e next) (done : pr.alive = .done) : next.alive = .done := by
  cases h with
  | add place | added place | start place | stop place | round place | sent place
  | roundDone place | close place =>
      rw [done] at place
      cases place
  | closed => rfl
  | _ => exact done

theorem logged (h : ProcessCases F p pr (.ready p) next) : next.ready = true := by
  cases h with
  | other apart => exact absurd rfl apart
  | ready => rfl

theorem readiness (h : ProcessCases F p pr e next) (old : pr.ready = true) :
    next.ready = true := by
  cases h with
  | ready => rfl
  | _ => exact old

/-- A host whose threads have both ended has nothing left but to log READY. -/
theorem ended (h : ProcessCases F p pr e next) (left : pr.receive = .left)
    (done : pr.alive = .done) (own : e.host = some p) : e = .ready p := by
  cases h with
  | other apart => exact absurd own apart
  | bind place | signal place | listen place | leave place | remove place | takeAlive place
  | takeAck place | answer place | crash place =>
      rw [left] at place
      cases place
  | add place | added place | start place | stop place | round place | sent place
  | roundDone place | close place | closed place =>
      rw [done] at place
      cases place
  | ready => rfl

end ProcessCases

namespace System

variable {F : Hostfile} {r : Run (step F) Resolves (initial F)} {s s' : System}
  {p q : Hostname} {e : Event}

/-! ## What holds along a run -/

theorem cases_of_event (r : Run (step F) Resolves (initial F)) {n : ℕ} {e : Event}
    (event : r.event n = some e) (p : Hostname) :
    ProcessCases F p ((r.state n).processes p) e ((r.state (n + 1)).processes p) :=
  processCases_of_step (r.happens n e event).2 p

theorem resolves_of_event (r : Run (step F) Resolves (initial F)) {n : ℕ} {e : Event}
    (event : r.event n = some e) (p : Hostname) (resolved : Bool)
    (answers : e = .sendingAckMessages p resolved) :
    ((r.state n).processes p).resolves resolved = true := by
  have ok := (r.happens n e event).1
  rw [answers] at ok
  exact ok

/-- No host crashes. -/
theorem up_of_run (r : Run (step F) Resolves (initial F)) (p : Hostname) (n : ℕ) :
    ((r.state n).processes p).crashed = false := by
  have start : ((r.state 0).processes p).crashed = false := by
    rw [r.first]
    rfl
  refine r.stays (P := fun s => (s.processes p).crashed = false) (fun n e event up => ?_) start
    (Nat.zero_le n)
  rw [(cases_of_event r event p).uncrashed (resolves_of_event r event p)]
  exact up

theorem running_of_run (r : Run (step F) Resolves (initial F)) (host : p ∈ F.hostnames) (n : ℕ) :
    (r.state n).running F p :=
  ⟨host, up_of_run r p n⟩

theorem receivers_of_run (r : Run (step F) Resolves (initial F)) {n m : ℕ} (later : n ≤ m)
    (filled : ∀ rest, ((r.state n).processes p).alive ≠ .addToAliveMessageReceiverList rest) :
    (∀ rest, ((r.state m).processes p).alive ≠ .addToAliveMessageReceiverList rest) ∧
      ((r.state m).processes p).aliveMessageReceivers ⊆
        ((r.state n).processes p).aliveMessageReceivers := by
  refine r.stays (P := fun s =>
    (∀ rest, (s.processes p).alive ≠ .addToAliveMessageReceiverList rest) ∧
      (s.processes p).aliveMessageReceivers ⊆ ((r.state n).processes p).aliveMessageReceivers)
    (fun k e event holds => ?_) ⟨filled, Finset.Subset.refl _⟩ later
  obtain ⟨filled, fewer⟩ := (cases_of_event r event p).receivers holds.1
  exact ⟨filled, fewer.trans holds.2⟩

theorem expects_of_run (r : Run (step F) Resolves (initial F)) {n m : ℕ} (later : n ≤ m)
    (bound : ((r.state n).processes p).receive ≠ .bind) :
    ((r.state m).processes p).receive ≠ .bind ∧
      ((r.state m).processes p).validSenders ⊆ ((r.state n).processes p).validSenders := by
  refine r.stays (P := fun s => (s.processes p).receive ≠ .bind ∧
    (s.processes p).validSenders ⊆ ((r.state n).processes p).validSenders)
    (fun k e event holds => ?_) ⟨bound, Finset.Subset.refl _⟩ later
  obtain ⟨bound, fewer⟩ := (cases_of_event r event p).expects holds.1
  exact ⟨bound, fewer.trans holds.2⟩

theorem left_of_run (r : Run (step F) Resolves (initial F)) {n m : ℕ} (later : n ≤ m)
    (left : ((r.state n).processes p).receive = .left) :
    ((r.state m).processes p).receive = .left := by
  refine r.stays (P := fun s => (s.processes p).receive = .left) (fun k e event left => ?_) left
    later
  rcases receive_of_step (r.happens k e event).2 p with same | ⟨away, _⟩
  · exact same.trans left
  · exact absurd left away

theorem finishing_of_run (r : Run (step F) Resolves (initial F)) {n m : ℕ} (later : n ≤ m)
    (past : ((r.state n).processes p).alive = .done ∨
      ∃ rest, ((r.state n).processes p).alive = .closeConnection rest) :
    ((r.state m).processes p).alive = .done ∨
      ∃ rest, ((r.state m).processes p).alive = .closeConnection rest :=
  r.stays (P := fun s => (s.processes p).alive = .done ∨
    ∃ rest, (s.processes p).alive = .closeConnection rest)
    (fun _ _ event old => (cases_of_event r event p).finishing old) past later

theorem noneStranded_of_reach (reach : Reach (step F) (Answering F) (initial F) s) :
    NoneStranded F s := by
  refine reach.invariant_with (P := NoneStranded F) (Q := fun s => ∀ p, AcksSent F s p)
    (fun _ => acksSent_of_reachable) (fun p left => by cases left) ?_
  exact fun _ _ _ known h answering taken => h.step known answering taken

/-! ## The two threads go on -/

/-- The alive thread goes on until it gets where it is to get to. -/
theorem Fair.alive_leads (fair : Fair r) (host : p ∈ F.hostnames) (start : ℕ)
    (goal : AliveState → Prop)
    (waits : ∀ n, start ≤ n → ((r.state n).processes p).alive = .wait →
      ((r.state n).processes p).heartbeatReceiverReady = true ∨ goal .wait)
    (round : ∀ n, start ≤ n → ((r.state n).processes p).alive = .test →
      ((r.state n).processes p).stopAliveMessageLoop = false →
        goal (.sendMessage ((r.state n).processes p).aliveMessageReceivers) ∨ goal .test)
    (stop : ∀ n, start ≤ n → ((r.state n).processes p).alive = .test →
      ((r.state n).processes p).stopAliveMessageLoop = true →
        goal (.closeConnection ((r.state n).processes p).udpSenders) ∨ goal .test)
    (done : ∀ n, start ≤ n → ((r.state n).processes p).alive = .done → goal .done) :
    ∃ n, start ≤ n ∧ goal ((r.state n).processes p).alive := by
  by_cases there : goal ((r.state start).processes p).alive
  · exact ⟨start, Nat.le_refl _, there⟩
  · refine fair.threads.leads_to (fun s => (s.processes p).alive.rank)
      (fun s => (s.processes p).alive.helpful p)
      (fun s => goal (s.processes p).alive) (P := fun s => ¬ goal (s.processes p).alive)
      (fun m after k holds => ?_) (fun n e later event here => ?_) there
    · refine Eventually.frequently (eventually_atTop.mpr ⟨m, fun n later => ?_⟩)
      obtain ⟨short, same⟩ := holds n later
      have late := Nat.le_trans after later
      rw [← same]
      refine canServe_alive (running_of_run r host n) (fun place => ?_) fun place => ?_
      · exact (waits n late place).resolve_right fun there => short (by rw [place]; exact there)
      · exact short (by rw [place]; exact done n late place)
    · by_cases next : goal ((r.state (n + 1)).processes p).alive
      · exact Or.inl next
      · refine Or.inr ⟨next, ?_⟩
        rcases (cases_of_event r event p).aliveMoves with ⟨same, other⟩ | less |
          ⟨place, ⟨goes, moved⟩ | ⟨stopped, moved⟩⟩
        · exact Or.inr ⟨congrArg _ same, congrArg _ same, other _⟩
        · exact Or.inl less
        · rcases round n later place goes with there | there
          · exact absurd (by rw [moved]; exact there) next
          · exact absurd (by rw [place]; exact there) here
        · rcases stop n later place stopped with there | there
          · exact absurd (by rw [moved]; exact there) next
          · exact absurd (by rw [place]; exact there) here

/-- The mutex is free again and again. -/
theorem Fair.often_unlocked (fair : Fair r) (host : p ∈ F.hostnames) :
    ∃ᶠ n in atTop, ((r.state n).processes p).locked = false := by
  refine frequently_atTop.mpr fun start => ?_
  obtain ⟨n, later, free⟩ := fair.alive_leads host start
    (fun a => ∀ rest, a ≠ .sendMessage rest)
    (fun _ _ _ => Or.inr fun _ away => by cases away)
    (fun _ _ _ _ => Or.inr fun _ away => by cases away)
    (fun _ _ _ _ => Or.inr fun _ away => by cases away) (fun _ _ _ _ away => by cases away)
  refine ⟨n, later, ?_⟩
  unfold Process.locked
  split
  · rename_i rest place
    exact absurd place (free rest)
  · rfl

/-- The listener goes on until it gets where it is to get to. -/
theorem Fair.listener_leads (fair : Fair r) (host : p ∈ F.hostnames)
    (start : ℕ) (goal : ReceiveState → Prop)
    (listens : ∀ n, start ≤ n → ((r.state n).processes p).receive = .receiveMessage →
      goal .receiveMessage)
    (leaves : ∀ n, start ≤ n → ((r.state n).processes p).receive = .left → goal .left) :
    ∃ n, start ≤ n ∧ goal ((r.state n).processes p).receive := by
  by_cases there : goal ((r.state start).processes p).receive
  · exact ⟨start, Nat.le_refl _, there⟩
  · refine fair.threads.leads_to (fun s => (s.processes p).receive.rank)
      (fun s => (s.processes p).receive.helpful p)
      (fun s => goal (s.processes p).receive) (P := fun s => ¬ goal (s.processes p).receive)
      (fun m after k holds => ?_) (fun n e later event here => ?_) there
    · refine ((fair.often_unlocked host).and_eventually (eventually_ge_atTop m)).mono ?_
      rintro n ⟨free, later⟩
      obtain ⟨short, same⟩ := holds n later
      have late := Nat.le_trans after later
      rw [← same]
      have running := running_of_run r host n
      cases place : ((r.state n).processes p).receive with
      | bind => exact canServe_receive running (Or.inl (Or.inl place))
      | signal => exact canServe_receive running (Or.inl (Or.inr place))
      | test => exact canServe_receive running (Or.inr ⟨free, Or.inl place⟩)
      | receiveMessage => exact absurd (by rw [place]; exact listens n late place) short
      | sendingAckMessages sender answers => exact canServe_answer running place
      | removeFromAliveMessageReceiverList sender =>
          exact canServe_receive running (Or.inr ⟨free, Or.inr ⟨sender, place⟩⟩)
      | left => exact absurd (by rw [place]; exact leaves n late place) short
    · by_cases next : goal ((r.state (n + 1)).processes p).receive
      · exact Or.inl next
      · refine Or.inr ⟨next, ?_⟩
        rcases (cases_of_event r event p).listenerMoves (resolves_of_event r event p) with
          ⟨same, other⟩ | less | place | place | place
        · exact Or.inr ⟨congrArg _ same, congrArg _ same, other _⟩
        · exact Or.inl less
        · exact absurd (by rw [place]; exact listens n later place) here
        · exact absurd (by rw [place]; exact listens (n + 1) (Nat.le_succ_of_le later) place) next
        · exact absurd (by rw [place]; exact leaves (n + 1) (Nat.le_succ_of_le later) place) next

/-- The flag that the alive thread waits for is set. -/
theorem Fair.eventually_bound (fair : Fair r) (dotless : ∀ h ∈ F.hostnames, '.' ∉ h)
    (host : p ∈ F.hostnames) :
    ∀ᶠ n in atTop, ((r.state n).processes p).receive ≠ .bind ∧
      ((r.state n).processes p).heartbeatReceiverReady = true := by
  obtain ⟨start, _, bound, past⟩ := fair.listener_leads host 0
    (fun a => a ≠ .bind ∧ a ≠ .signal)
    (fun _ _ _ => ⟨fun away => (by cases away), fun away => (by cases away)⟩)
    (fun _ _ _ => ⟨fun away => (by cases away), fun away => (by cases away)⟩)
  have flag := ((orderly_of_reachable dotless (r.reach start).always).locally p).flag bound past
  refine eventually_atTop.mpr ⟨start, fun n later => ⟨(expects_of_run r later bound).1, ?_⟩⟩
  exact r.stays (P := fun s => (s.processes p).heartbeatReceiverReady = true)
    (fun n e event old => (cases_of_event r event p).flagged old) flag later

/-- The list of receivers gets full. -/
theorem Fair.eventually_filled (fair : Fair r) (host : p ∈ F.hostnames) :
    ∀ᶠ n in atTop, ∀ rest,
      ((r.state n).processes p).alive ≠ .addToAliveMessageReceiverList rest := by
  obtain ⟨start, _, filled⟩ := fair.alive_leads host 0
    (fun a => ∀ rest, a ≠ .addToAliveMessageReceiverList rest)
    (fun _ _ _ => Or.inr fun _ away => by cases away)
    (fun _ _ _ _ => Or.inr fun _ away => by cases away)
    (fun _ _ _ _ => Or.inr fun _ away => by cases away) (fun _ _ _ _ away => by cases away)
  exact eventually_atTop.mpr ⟨start, fun n later => (receivers_of_run r later filled).1⟩

/-! ## Messages and what becomes of them -/

theorem inFlight_post {src dst : Hostname} {m : Message} :
    (s.post false ⟨src, dst, m⟩).InFlight src dst m.isAck :=
  ⟨s.sent.length, List.mem_append_right _ (List.mem_singleton_self _), m,
    List.getElem?_concat_length, rfl⟩

theorem inFlight_of_send (taken : s.step F (.sendMessage p q true) = some s')
    (isOpen : (s.processes p).closed = ∅) : s'.InFlight p q false := by
  unfold step at taken
  dsimp only at taken
  split at taken
  · split at taken
    · split at taken
      · split at taken
        · rename_i udpSender
          obtain ⟨udpSenders, rfl⟩ := getUDPSender_eq udpSender
          cases taken
          dsimp only
          rw [isOpen, decide_eq_false (Finset.notMem_empty q)]
          exact inFlight_post
        · rename_i unresolved
          unfold Process.getUDPSender at unresolved
          split at unresolved <;> cases unresolved
      · cases taken
    · cases taken
  · cases taken

/-- What the listener makes of a message that it takes. -/
theorem process_of_takes (taken : s.step F e = some s') {ack : Bool} (takes : s.Takes e q p ack)
    (name : F.senderName q = q) :
    ∃ n m, m.isAck = ack ∧ s'.processes p = (s.processes p).take q n m := by
  obtain ⟨i, copy, n, m, rfl, found, content, kind⟩ := takes
  cases stepCases_of_step taken with
  | take running place found' content' addressed =>
      rw [found] at found'
      cases found'
      rw [HasSent] at content
      rw [content] at content'
      cases content'
      refine ⟨n, m, kind, ?_⟩
      rw [deliver, processes_setProcess, if_pos rfl, name]

/-- What an answer does. -/
theorem answered_of_step {resolved : Bool} {n : ℕ}
    (taken : s.step F (.sendingAckMessages p resolved) = some s')
    (resolves : (s.processes p).resolves resolved = true)
    (place : (s.processes p).receive = .sendingAckMessages q n) :
    q ∉ (s'.processes p).validSenders ∧ (q ∉ (s.processes p).closed → s'.InFlight p q true) := by
  unfold Process.resolves at resolves
  rw [place] at resolves
  dsimp only at resolves
  unfold step at taken
  dsimp only at taken
  rw [place] at taken
  dsimp only at taken
  split at taken
  · split at taken
    · rename_i udpSender
      obtain ⟨udpSenders, rfl⟩ := getUDPSender_eq udpSender
      cases taken
      rw [processes_setProcess, if_pos rfl]
      refine ⟨Finset.notMem_erase _ _, fun isOpen => ?_⟩
      dsimp only
      rw [decide_eq_false isOpen]
      exact inFlight_post
    · rename_i unresolved
      rw [unresolved] at resolves
      cases resolves
  · cases taken

/-- A message at hand is answered. -/
theorem Fair.answers (fair : Fair r) (host : p ∈ F.hostnames) {start k : ℕ}
    (place : ((r.state start).processes p).receive = .sendingAckMessages q k) :
    ∃ n, start ≤ n ∧ q ∉ ((r.state (n + 1)).processes p).validSenders ∧
      (q ∉ ((r.state n).processes p).closed → (r.state (n + 1)).InFlight p q true) := by
  obtain ⟨n, later, place, e, event, resolved, rfl⟩ := fair.threads.happens
    (P := fun s => (s.processes p).receive = .sendingAckMessages q k) (k := .sendingAckMessages p)
    (fun holds => Eventually.frequently (eventually_atTop.mpr ⟨start, fun n later =>
      canServe_answer (running_of_run r host n) (holds n later)⟩))
    (fun n e _ event place other => (cases_of_event r event p).answering place
      fun resolved same => other ⟨resolved, same⟩) place
  exact ⟨n, later, answered_of_step (r.happens n _ event).2
    (resolves_of_event r event p resolved rfl) place⟩

/-- A host that is being taken off the list of receivers gets off it. -/
theorem Fair.removes (fair : Fair r) (host : p ∈ F.hostnames) {start : ℕ}
    (place : ((r.state start).processes p).receive = .removeFromAliveMessageReceiverList q) :
    ∃ n, start ≤ n ∧ q ∉ ((r.state n).processes p).aliveMessageReceivers := by
  by_contra never
  have stays (n : ℕ) (later : start ≤ n) :
      q ∈ ((r.state n).processes p).aliveMessageReceivers := by
    by_contra gone
    exact never ⟨n, later, gone⟩
  obtain ⟨n, later, place, e, event, rfl⟩ := fair.threads.happens
    (P := fun s => (s.processes p).receive = .removeFromAliveMessageReceiverList q)
    (k := .receive p)
    (fun holds => ((fair.often_unlocked host).and_eventually (eventually_ge_atTop start)).mono
      fun n here => canServe_receive (running_of_run r host n)
        (Or.inr ⟨here.1, Or.inr ⟨q, holds n here.2⟩⟩))
    (fun n e later event place _ => ((cases_of_event r event p).removing place).resolve_right
      (not_not.mpr (stays (n + 1) (Nat.le_succ_of_le later)))) place
  have gone := (cases_of_event r event p).removed place
  exact gone (stays (n + 1) (Nat.le_succ_of_le later))

/-- A listener that does not leave listens again and again. -/
theorem Fair.often_listening (fair : Fair r) (host : p ∈ F.hostnames)
    (stays : ∀ n, ((r.state n).processes p).receive ≠ .left) :
    ∃ᶠ n in atTop, ((r.state n).processes p).receive = .receiveMessage := by
  refine frequently_atTop.mpr fun start => ?_
  exact fair.listener_leads host start (fun a => a = .receiveMessage) (fun _ _ _ => rfl)
    fun n _ left => absurd left (stays n)

/-! ## Who is expected is heard, and who is asked answers -/

section Dotless

variable (dotless : ∀ h ∈ F.hostnames, '.' ∉ h)
include dotless

theorem orderly_of_run (r : Run (step F) Resolves (initial F)) (n : ℕ) : Orderly F (r.state n) :=
  orderly_of_reachable dotless (r.reach n).always

/-- A host that stays on the list of receivers is asked again and again. -/
theorem Fair.often_asked (fair : Fair r) (host : p ∈ F.hostnames) {start : ℕ}
    (asks : ∀ n, start ≤ n → q ∈ ((r.state n).processes p).aliveMessageReceivers) :
    ∃ᶠ n in atTop, (r.state n).InFlight p q false := by
  obtain ⟨bound, flag⟩ := eventually_atTop.mp (fair.eventually_bound dotless host)
  have orderly := orderly_of_run dotless r
  have often : ∃ᶠ n in atTop, CanServe (step F) Serves (.sendMessage p q) (r.state n) := by
    refine frequently_atTop.mpr fun b => ?_
    have late {n : ℕ} (later : max b (max start bound) ≤ n) : b ≤ n ∧ start ≤ n ∧ bound ≤ n := by
      omega
    obtain ⟨n, later, rest, place, mem⟩ := fair.alive_leads host (max b (max start bound))
      (fun a => ∃ rest, a = .sendMessage rest ∧ q ∈ rest)
      (fun n later _ => Or.inl (flag n (late later).2.2).2)
      (fun n later _ _ => Or.inl ⟨_, rfl, asks n (late later).2.1⟩)
      (fun n later _ stopped => by
        have goes := ((orderly n).going (asks n (late later).2.1)).1
        rw [goes] at stopped
        cases stopped)
      (fun n later done => absurd done ((orderly n).going (asks n (late later).2.1)).2.1)
    exact ⟨n, (late later).1, canServe_sendMessage (running_of_run r host n) place mem⟩
  refine frequently_of_succ (((fair.threads (.sendMessage p q) often).and_eventually
    (eventually_ge_atTop start)).mono ?_)
  rintro n ⟨⟨e, event, rfl⟩, later⟩
  have taken := (r.happens n _ event).2
  obtain ⟨_, undone, notClosing⟩ := (orderly n).going (asks n later)
  exact inFlight_of_send taken (((orderly n).locally p).sendersOpen notClosing undone)

/-- What is in flight again and again to a host that does not leave is taken. -/
theorem Fair.often_taken (fair : Fair r) (host : p ∈ F.hostnames) (known : q ∈ F.hostnames)
    (stays : ∀ n, ((r.state n).processes p).receive ≠ .left) {ack : Bool}
    (often : ∃ᶠ n in atTop, (r.state n).InFlight q p ack) :
    ∃ᶠ n in atTop, ∃ k m, m.isAck = ack ∧
      (r.state n).processes p = ((r.state (n - 1)).processes p).take q k m := by
  have takes := fair.network p q ack (fair.often_listening host stays) often
  refine frequently_of_succ (P := fun n => ∃ k m, m.isAck = ack ∧
    (r.state n).processes p = ((r.state (n - 1)).processes p).take q k m) (takes.mono ?_)
  rintro n ⟨e, event, takes⟩
  exact process_of_takes (r.happens n e event).2 takes
    (Hostfile.senderName_eq (dotless q known))

/-- Whose "I am alive" a host takes is answered by it. -/
theorem Fair.often_answered (fair : Fair r) (host : p ∈ F.hostnames) (known : q ∈ F.hostnames)
    (stays : ∀ n, ((r.state n).processes p).receive ≠ .left)
    (often : ∃ᶠ n in atTop, (r.state n).InFlight q p false) :
    ∃ᶠ n in atTop, q ∉ ((r.state (n + 1)).processes p).validSenders ∧
      (q ∉ ((r.state n).processes p).closed → (r.state (n + 1)).InFlight p q true) := by
  refine frequently_atTop.mpr fun start => ?_
  obtain ⟨n, later, k, m, kind, now⟩ :=
    frequently_atTop.mp (fair.often_taken dotless host known stays often) start
  have place : ((r.state n).processes p).receive = .sendingAckMessages q k := by
    cases m with
    | alive =>
        rw [now]
        rfl
    | ack a => cases kind
  obtain ⟨n', later', answered⟩ := fair.answers host place
  exact ⟨n', Nat.le_trans later later', answered⟩

/-- Whose `Ack` is in flight again and again is taken off the list of receivers. -/
theorem Fair.acked (fair : Fair r) (host : p ∈ F.hostnames) (known : q ∈ F.hostnames)
    (stays : ∀ n, ((r.state n).processes p).receive ≠ .left)
    (often : ∃ᶠ n in atTop, (r.state n).InFlight q p true) (start : ℕ) :
    ∃ n, start ≤ n ∧ q ∉ ((r.state n).processes p).aliveMessageReceivers := by
  obtain ⟨n, later, k, m, kind, now⟩ :=
    frequently_atTop.mp (fair.often_taken dotless host known stays often) start
  have place : ((r.state n).processes p).receive = .removeFromAliveMessageReceiverList q := by
    cases m with
    | alive => cases kind
    | ack a =>
        rw [now]
        rfl
  obtain ⟨n', later', gone⟩ := fair.removes host place
  exact ⟨n', Nat.le_trans later later', gone⟩

/-- Nobody is expected for ever. -/
theorem Fair.often_heard (fair : Fair r) (host : p ∈ F.hostnames) (q : Hostname) :
    ∃ᶠ n in atTop, q ∉ ((r.state n).processes p).validSenders := by
  have orderly := orderly_of_run dotless r
  intro always
  obtain ⟨start, expected⟩ := eventually_atTop.mp (always.mono fun _ => not_not.mp)
  have peer := ((orderly start).locally p).expected q (expected start (Nat.le_refl _))
  obtain ⟨known, other⟩ := Hostfile.mem_peerHostnames.mp peer
  have peer' : p ∈ F.peerHostnames q := Hostfile.mem_peerHostnames.mpr ⟨host, other.symm⟩
  obtain ⟨full, filled⟩ := eventually_atTop.mp (fair.eventually_filled known)
  have asks (n : ℕ) (later : max start full ≤ n) :
      p ∈ ((r.state n).processes q).aliveMessageReceivers := by
    by_contra gone
    rcases ((orderly n).sound.sends q).answered p peer' gone with ⟨rest, place, _⟩ | answered
    · exact filled n (Nat.le_trans (Nat.le_max_right _ _) later) rest place
    · obtain ⟨_, a, _, _, ack, _⟩ :=
        (orderly n).sound.answered_by (dotless_peers dotless q) answered
      exact ((orderly n).erased p q (acks_ne_nil.mpr ⟨a, _, ack⟩)).2
        (expected n (Nat.le_trans (Nat.le_max_left _ _) later))
  have stays (n : ℕ) : ((r.state n).processes p).receive ≠ .left := by
    intro left
    have mem := expected (max n start) (Nat.le_max_right _ _)
    rw [((orderly _).sound.listens p).left (left_of_run r (Nat.le_max_left _ _) left)] at mem
    exact Finset.notMem_empty q mem
  obtain ⟨n, later, gone, _⟩ := frequently_atTop.mp
    (fair.often_answered dotless host known stays (fair.often_asked dotless known asks)) start
  exact gone (expected (n + 1) (Nat.le_succ_of_le later))

/-- Every host hears every other one. -/
theorem Fair.eventually_heard (fair : Fair r) (host : p ∈ F.hostnames) :
    ∀ᶠ n in atTop, ((r.state n).processes p).validSenders = ∅ := by
  obtain ⟨bound, after⟩ := eventually_atTop.mp (fair.eventually_bound dotless host)
  have none := eventually_empty
    (S := fun n => (((r.state n).processes p).validSenders : Set Hostname))
    ((r.state bound).processes p).validSenders.finite_toSet
    (fun n later => Finset.coe_subset.mpr (expects_of_run r (Nat.le_succ n) (after n later).1).2)
    fun q => (fair.often_heard dotless host q).mono fun _ gone mem => gone (Finset.mem_coe.mp mem)
  exact none.mono fun _ => Finset.coe_eq_empty.mp

/-- A listener with nobody to wait for leaves. -/
theorem Fair.leaves (fair : Fair r) (host : p ∈ F.hostnames) {start : ℕ}
    (heard : ∀ n, start ≤ n → ((r.state n).processes p).validSenders = ∅)
    (answered : ∀ n, start ≤ n → ((r.state n).processes p).aliveMessageReceivers = ∅) :
    ∃ n, start ≤ n ∧ ((r.state n).processes p).receive = .left := by
  refine fair.listener_leads host start (fun a => a = .left) (fun n later place => ?_)
    fun _ _ _ => rfl
  rcases ((orderly_of_run dotless r n).locally p).waits place with waits | waits
  · exact absurd (heard n later) waits
  · exact absurd (answered n later) waits

section Proper

variable (fills : ∀ n e, r.event n = some e → (r.state n).FillsFirst e)
  (answering : ∀ n e, r.event n = some e → (r.state n).Answering F e)
include fills answering

/-- Nobody is asked for ever. -/
theorem Fair.often_acked (fair : Fair r) (host : p ∈ F.hostnames) (q : Hostname) :
    ∃ᶠ n in atTop, q ∉ ((r.state n).processes p).aliveMessageReceivers := by
  have orderly := orderly_of_run dotless r
  intro always
  obtain ⟨start, asks⟩ := eventually_atTop.mp (always.mono fun _ => not_not.mp)
  have peer := ((orderly start).sound.sends p).receivers q (asks start (Nat.le_refl _))
  obtain ⟨known, other⟩ := Hostfile.mem_peerHostnames.mp peer
  have noAck (n : ℕ) (later : start ≤ n) : ¬ (r.state n).HasAck p q := by
    intro ack
    rcases (orderly n).removed p q ack with gone | place
    · exact gone (asks n later)
    · obtain ⟨m, later', gone⟩ := fair.removes host place
      exact gone (asks m (Nat.le_trans later later'))
  have stays (n : ℕ) : ((r.state n).processes p).receive ≠ .left := by
    intro left
    have drained := drained_of_reach (r.reach_of fills (max n start)) p
      (left_of_run r (Nat.le_max_left _ _) left) q peer
    exact noAck _ (Nat.le_max_right _ _) drained.2
  have never : ¬ ∃ᶠ n in atTop, (r.state n).InFlight q p true := by
    intro often
    obtain ⟨n, later, gone⟩ := fair.acked dotless host known stays often start
    exact gone (asks n later)
  by_cases left : ∃ n, ((r.state n).processes q).receive = .left
  · -- an `Ack` of `q` is on its way
    obtain ⟨m, left⟩ := left
    have peer' := Hostfile.mem_peerHostnames.mpr ⟨host, other.symm⟩
    refine never (Eventually.frequently (eventually_atTop.mpr ⟨max m start, fun n later => ?_⟩))
    obtain ⟨a, mem, here⟩ := noneStranded_of_reach (r.reach_of answering n) q
      (left_of_run r (Nat.le_trans (Nat.le_max_left _ _) later) left) p peer'
    obtain ⟨k, sent⟩ := mem_acks.mp mem
    rcases here with received | inFlight
    · exact absurd ⟨a, k, sent, received⟩ (noAck n (Nat.le_trans (Nat.le_max_right _ _) later))
    · exact ⟨a, inFlight, .ack k, sent, rfl⟩
  · have stays' (n : ℕ) : ((r.state n).processes q).receive ≠ .left := fun here => left ⟨n, here⟩
    by_cases past : ∃ n, ((r.state n).processes q).alive = .done ∨
        ∃ rest, ((r.state n).processes q).alive = .closeConnection rest
    · -- `q` has nobody to wait for any more, and leaves
      obtain ⟨m, past⟩ := past
      obtain ⟨quiet, heard⟩ := eventually_atTop.mp (fair.eventually_heard dotless known)
      have answered (n : ℕ) (later : m ≤ n) :
          ((r.state n).processes q).aliveMessageReceivers = ∅ :=
        ((orderly n).stops q
          (((orderly n).sound.sends q).stopped (finishing_of_run r later past))).1
      have leaves : ∃ n, max quiet m ≤ n ∧ ((r.state n).processes q).receive = .left :=
        fair.leaves dotless known
          (fun n later => heard n (Nat.le_trans (Nat.le_max_left _ _) later))
          fun n later => answered n (Nat.le_trans (Nat.le_max_right _ _) later)
      obtain ⟨n, _, left⟩ := leaves
      exact stays' n left
    · refine never (frequently_of_succ ((fair.often_answered dotless known host stays'
        (fair.often_asked dotless host asks)).mono fun n answered => answered.2 ?_))
      rw [((orderly n).locally q).sendersOpen (fun rest place => past ⟨n, Or.inr ⟨rest, place⟩⟩)
        fun place => past ⟨n, Or.inl place⟩]
      exact Finset.notMem_empty p

/-- Every host is answered by every other one. -/
theorem Fair.eventually_acked (fair : Fair r) (host : p ∈ F.hostnames) :
    ∀ᶠ n in atTop, ((r.state n).processes p).aliveMessageReceivers = ∅ := by
  obtain ⟨full, filled⟩ := eventually_atTop.mp (fair.eventually_filled host)
  have none := eventually_empty
    (S := fun n => (((r.state n).processes p).aliveMessageReceivers : Set Hostname))
    ((r.state full).processes p).aliveMessageReceivers.finite_toSet
    (fun n later => Finset.coe_subset.mpr (receivers_of_run r (Nat.le_succ n) (filled n later)).2)
    fun q => (fair.often_acked dotless fills answering host q).mono fun _ gone mem =>
      gone (Finset.mem_coe.mp mem)
  exact none.mono fun _ => Finset.coe_eq_empty.mp

/-- A host with peers gets READY. -/
theorem Fair.eventually_ready (fair : Fair r) (host : p ∈ F.hostnames)
    (peers : F.peerHostnames p ≠ []) :
    ∀ᶠ n in atTop, ((r.state n).processes p).ready = true := by
  have orderly := orderly_of_run dotless r
  obtain ⟨start, settled⟩ := eventually_atTop.mp
    ((fair.eventually_heard dotless host).and
      ((fair.eventually_acked dotless fills answering host).and
        (fair.eventually_filled host)))
  obtain ⟨gone, _, left⟩ := fair.leaves dotless host (fun n later => (settled n later).1)
    fun n later => (settled n later).2.1
  have told (n : ℕ) (later : start ≤ n) :
      ((r.state n).processes p).stopAliveMessageLoop = true :=
    ((orderly n).locally p).told (settled n later).2.2 (settled n later).2.1 peers
  -- the alive thread leaves its loop, and then closes its senders
  obtain ⟨out, after, past⟩ : ∃ n, max gone start ≤ n ∧
      (((r.state n).processes p).alive = .done ∨
        ∃ rest, ((r.state n).processes p).alive = .closeConnection rest) :=
    fair.alive_leads host (max gone start) (fun a => a = .done ∨ ∃ rest, a = .closeConnection rest)
      (fun n later place => Or.inl (((orderly n).locally p).flag
        (by
          rw [left_of_run r (Nat.le_trans (Nat.le_max_left _ _) later) left]
          exact fun away => by cases away)
        (by
          rw [left_of_run r (Nat.le_trans (Nat.le_max_left _ _) later) left]
          exact fun away => by cases away)))
      (fun n later _ goes => by
        rw [told n (Nat.le_trans (Nat.le_max_right _ _) later)] at goes
        cases goes)
      (fun _ _ _ _ => Or.inl (Or.inr ⟨_, rfl⟩)) fun _ _ _ => Or.inl rfl
  have outside {n : ℕ} (later : out ≤ n) {a : AliveState} (here : a ≠ .done)
      (there : ∀ rest, a ≠ .closeConnection rest) : ((r.state n).processes p).alive ≠ a := by
    rintro rfl
    rcases finishing_of_run r later past with place | ⟨rest, place⟩
    · exact here place
    · exact there rest place
  obtain ⟨last, later, done⟩ := fair.alive_leads host out (fun a => a = .done)
    (fun n later place => absurd place (outside later
      (fun away => by cases away) fun _ away => by cases away))
    (fun n later place => absurd place (outside later
      (fun away => by cases away) fun _ away => by cases away))
    (fun n later place => absurd place (outside later
      (fun away => by cases away) fun _ away => by cases away)) fun _ _ _ => rfl
  have ended (n : ℕ) (latest : last ≤ n) : ((r.state n).processes p).receive = .left ∧
      ((r.state n).processes p).alive = .done := by
    refine ⟨left_of_run r ?_ left, ?_⟩
    · exact Nat.le_trans (Nat.le_max_left _ _) (Nat.le_trans after (Nat.le_trans later latest))
    · exact r.stays (P := fun s => (s.processes p).alive = .done)
        (fun n e event old => (cases_of_event r event p).done old) done latest
  have stays {n m : ℕ} (latest : n ≤ m) (ready : ((r.state n).processes p).ready = true) :
      ((r.state m).processes p).ready = true :=
    r.stays (P := fun s => (s.processes p).ready = true)
      (fun n e event old => (cases_of_event r event p).readiness old) ready latest
  by_contra never
  have unready (n : ℕ) : ((r.state n).processes p).ready = false := by
    rw [← Bool.not_eq_true]
    exact fun ready => never (eventually_atTop.mpr ⟨n, fun m latest => stays latest ready⟩)
  have often : ∃ᶠ n in atTop, CanServe (step F) Serves (.ready p) (r.state n) := by
    refine Eventually.frequently (eventually_atTop.mpr ⟨last, fun n latest => ?_⟩)
    refine ⟨.ready p, ⟨rfl, unready n⟩, ?_⟩
    unfold step
    dsimp only
    rw [if_pos ⟨running_of_run r host n, ended n latest⟩]
    exact fun none => by cases none
  obtain ⟨n, e, event, rfl, _⟩ := (fair.threads (.ready p) often).exists
  have ready := (cases_of_event r event p).logged
  rw [unready] at ready
  cases ready

end Proper

end Dotless

theorem exists_peer (two : 2 ≤ F.hostnames.length) (p : Hostname) : F.peerHostnames p ≠ [] := by
  intro none
  have alone : F.hostnames ⊆ [p] := by
    intro h mem
    by_contra other
    have peer : h ∈ F.peerHostnames p :=
      Hostfile.mem_peerHostnames.mpr ⟨mem, fun same => other (List.mem_singleton.mpr same)⟩
    rw [none] at peer
    cases peer
  have short := (F.nodup.subperm alone).length_le
  exact absurd (Nat.le_trans two short) (Nat.not_succ_le_self 1)

/-- **READY for all.**  Among at least two hosts without dots in their names, along every fair run
in which names resolve, all hosts log READY if and only if no listener leaves before its list of
receivers is full, no first answer to a peer goes over a closed sender, and the network does not
lose all that a host which leaves has answered to a peer. -/
theorem all_ready_iff (dotless : ∀ h ∈ F.hostnames, '.' ∉ h) (two : 2 ≤ F.hostnames.length)
    (r : Run (step F) Resolves (initial F)) (fair : Fair r) :
    (∀ᶠ n in atTop, ∀ p ∈ F.hostnames, ((r.state n).processes p).ready = true) ↔
      ∀ n e, r.event n = some e → (r.state n).FillsFirst e ∧ (r.state n).Answering F e := by
  constructor
  · intro ready n e event
    by_contra improper
    have orderly := orderly_of_run dotless r
    have stranded := (orderly n).stranded dotless improper (r.happens n e event).2
    obtain ⟨m, all, later⟩ := (ready.and (eventually_ge_atTop (n + 1))).exists
    refine (orderly m).not_stranded dotless all ?_
    exact r.stays (P := Stranded F)
      (fun k e event old => old.next (orderly k).known (r.happens k e event).2) stranded later
  · intro proper
    have each : ∀ᶠ n in atTop, ∀ p ∈ { p | p ∈ F.hostnames },
        ((r.state n).processes p).ready = true :=
      (List.finite_toSet F.hostnames).eventually_all.mpr fun p host =>
        fair.eventually_ready dotless (fun n e event => (proper n e event).1)
          (fun n e event => (proper n e event).2) host (exists_peer two p)
    exact each

/-! ## A run that ends -/

theorem running_of_step (taken : s.step F e = some s') (own : e.host = some p) :
    s.running F p := by
  cases stepCases_of_step taken with
  | lose => cases own
  | bind running | signal running | listen running | leave running | remove running | take running
  | answer running | crash running | add running | added running | start running | stop running
  | round running | sent running | unsent running | roundDone running | close running
  | closed running | ready running =>
      cases own
      exact running

theorem host_of_serves {a : Activity} (serves : Serves a s e) : ∃ p, e.host = some p := by
  cases a with
  | receive p =>
      rw [Serves] at serves
      exact ⟨p, by rw [serves]; rfl⟩
  | sendingAckMessages p =>
      obtain ⟨resolved, rfl⟩ := serves
      exact ⟨p, rfl⟩
  | alive p =>
      rw [Serves] at serves
      exact ⟨p, by rw [serves]; rfl⟩
  | sendMessage p q =>
      rw [Serves] at serves
      exact ⟨p, by rw [serves]; rfl⟩
  | closeConnection p q =>
      rw [Serves] at serves
      exact ⟨p, by rw [serves]; rfl⟩
  | ready p => exact ⟨p, by rw [serves.1]; rfl⟩

/-- Once all hosts are ready nothing is left to do. -/
theorem fair_of_ready (dotless : ∀ h ∈ F.hostnames, '.' ∉ h)
    (r : Run (step F) Resolves (initial F))
    (ready : ∀ᶠ n in atTop, ∀ p ∈ F.hostnames, ((r.state n).processes p).ready = true) :
    Fair r := by
  have orderly := orderly_of_run dotless r
  refine ⟨Run.fair_of_still (ready.mono fun n all k => ?_), fun p q ack often => ?_⟩
  · rintro ⟨e, serves, can⟩
    obtain ⟨s', taken⟩ := Option.ne_none_iff_exists'.mp can
    obtain ⟨p, own⟩ := host_of_serves serves
    have ready := all p (running_of_step taken own).1
    obtain ⟨left, done⟩ := (orderly n).sound.finished p ready
    have last := (processCases_of_step taken p).ended left done own
    subst last
    cases k with
    | ready p' =>
        obtain ⟨same, unready⟩ := serves
        cases same
        rw [ready] at unready
        cases unready
    | sendingAckMessages p' =>
        obtain ⟨_, same⟩ := serves
        cases same
    | _ => cases serves
  · obtain ⟨n, place, all⟩ := (often.and_eventually ready).exists
    have host := (orderly n).hosts p (by rw [place]; exact fun away => by cases away)
    rw [((orderly n).sound.finished p (all p host)).1] at place
    cases place

theorem readyRun_resolves :
    allowedAlong (step twoHosts) Resolves (initial twoHosts)
      (firstRound ++ answers ++ stopping) := by
  decide +kernel

/-- The run to `bothReady`, after which nothing happens. -/
def gettingReady : Run (step twoHosts) Resolves (initial twoHosts) :=
  .ofReplay (firstRound ++ answers ++ stopping) readyRun_resolves readyRun_some

theorem gettingReady_ready :
    ∀ᶠ n in atTop, ∀ p ∈ twoHosts.hostnames, ((gettingReady.state n).processes p).ready = true := by
  have last : ∀ p ∈ twoHosts.hostnames, (bothReady.processes p).ready = true := by decide +kernel
  refine eventually_atTop.mpr ⟨(firstRound ++ answers ++ stopping).length, fun n later => ?_⟩
  have state : gettingReady.state n = bothReady :=
    stateAt_last (Option.some_get readyRun_some).symm later
  rw [state]
  exact last

theorem all_ready_gettingReady :
    ((∀ h ∈ twoHosts.hostnames, '.' ∉ h) ∧ 2 ≤ twoHosts.hostnames.length ∧ Fair gettingReady) ∧
      ((∀ᶠ n in atTop, ∀ p ∈ twoHosts.hostnames,
        ((gettingReady.state n).processes p).ready = true) ↔
          ∀ n e, gettingReady.event n = some e →
            (gettingReady.state n).FillsFirst e ∧ (gettingReady.state n).Answering twoHosts e) := by
  have dotless : ∀ h ∈ twoHosts.hostnames, '.' ∉ h := by decide
  have two : 2 ≤ twoHosts.hostnames.length := by decide
  have fair := fair_of_ready dotless gettingReady gettingReady_ready
  exact ⟨⟨dotless, two, fair⟩, all_ready_iff dotless two gettingReady fair⟩

end System

end GroupComm.Lab0
