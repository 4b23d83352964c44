import GroupComm.Lab0.Barrier

/-!
# The threads of one host

`StepCases` says what a step does to the system, `ProcessCases` what it does to one process, with
the tests that its threads make.  From it follows what holds of a process as long as names resolve
and have no dots.

* What has been sent and received is not forgotten (`grows_of_step`).
* `Local` is what holds of a process by itself.
* Who has been sent an `Ack` is not expected any more (`Erased`), and whose `Ack` has been taken is
  about to be taken off the list of receivers, or has been (`Removed`).
-/

namespace GroupComm.Lab0

open Transition

/-- The host whose thread takes the step. -/
def Event.host : Event → Option Hostname
  | receive p => some p
  | receiveMessage p _ _ => some p
  | sendingAckMessages p _ => some p
  | alive p => some p
  | sendMessage p _ _ => some p
  | closeConnection p _ => some p
  | ready p => some p
  | lose _ => none

/-- What a step does to the process of `p`. -/
inductive ProcessCases (F : Hostfile) (p : Hostname) (pr : Process) : Event → Process → Prop
  | other {e} (apart : e.host ≠ some p) : ProcessCases F p pr e pr
  | bind (place : pr.receive = .bind) :
    ProcessCases F p pr (.receive p)
      { pr with validSenders := (F.peerHostnames p).toFinset, receive := .signal }
  | signal (place : pr.receive = .signal) :
    ProcessCases F p pr (.receive p) { pr with heartbeatReceiverReady := true, receive := .test }
  | listen (place : pr.receive = .test)
      (waits : pr.validSenders ≠ ∅ ∨ pr.aliveMessageReceivers ≠ ∅) :
    ProcessCases F p pr (.receive p) { pr with receive := .receiveMessage }
  | leave (place : pr.receive = .test) (heard : pr.validSenders = ∅)
      (answered : pr.aliveMessageReceivers = ∅) :
    ProcessCases F p pr (.receive p) { pr with receive := .left }
  | remove {sender} (place : pr.receive = .removeFromAliveMessageReceiverList sender) :
    ProcessCases F p pr (.receive p)
      { pr with
        aliveMessageReceivers := pr.aliveMessageReceivers.erase sender
        stopAliveMessageLoop :=
          pr.stopAliveMessageLoop || decide (pr.aliveMessageReceivers.erase sender = ∅)
        receive := .test }
  | takeAlive {i copy number src} (place : pr.receive = .receiveMessage) :
    ProcessCases F p pr (.receiveMessage p i copy)
      { pr with receive := .sendingAckMessages (F.senderName src) number }
  | takeAck {i copy src} (place : pr.receive = .receiveMessage) :
    ProcessCases F p pr (.receiveMessage p i copy)
      { pr with receive := .removeFromAliveMessageReceiverList (F.senderName src) }
  | answer {resolved sender answers udpSenders}
      (place : pr.receive = .sendingAckMessages sender answers) :
    ProcessCases F p pr (.sendingAckMessages p resolved)
      { pr with
        udpSenders := udpSenders
        validSenders := pr.validSenders.erase sender
        receive := .test }
  | crash {resolved sender answers} (place : pr.receive = .sendingAckMessages sender answers)
      (unresolved : pr.getUDPSender sender resolved = none) :
    ProcessCases F p pr (.sendingAckMessages p resolved) { pr with crashed := true }
  | add {h rest} (place : pr.alive = .addToAliveMessageReceiverList (h :: rest)) :
    ProcessCases F p pr (.alive p)
      { pr with
        aliveMessageReceivers := insert h pr.aliveMessageReceivers
        alive := .addToAliveMessageReceiverList rest }
  | added (place : pr.alive = .addToAliveMessageReceiverList []) :
    ProcessCases F p pr (.alive p) { pr with alive := .wait }
  | start (place : pr.alive = .wait) : ProcessCases F p pr (.alive p) { pr with alive := .test }
  | stop (place : pr.alive = .test) (stopped : pr.stopAliveMessageLoop = true) :
    ProcessCases F p pr (.alive p) { pr with alive := .closeConnection pr.udpSenders }
  | round (place : pr.alive = .test) (goes : pr.stopAliveMessageLoop = false) :
    ProcessCases F p pr (.alive p) { pr with alive := .sendMessage pr.aliveMessageReceivers }
  | sent {q resolved rest udpSenders} (place : pr.alive = .sendMessage rest) (mem : q ∈ rest) :
    ProcessCases F p pr (.sendMessage p q resolved)
      { pr with udpSenders := udpSenders, alive := .sendMessage (rest.erase q) }
  | roundDone (place : pr.alive = .sendMessage ∅) :
    ProcessCases F p pr (.alive p) { pr with alive := .test }
  | close {q rest} (place : pr.alive = .closeConnection rest) (mem : q ∈ rest) :
    ProcessCases F p pr (.closeConnection p q)
      { pr with closed := insert q pr.closed, alive := .closeConnection (rest.erase q) }
  | closed (place : pr.alive = .closeConnection ∅) :
    ProcessCases F p pr (.alive p) { pr with alive := .done }
  | ready (left : pr.receive = .left) (done : pr.alive = .done) :
    ProcessCases F p pr (.ready p) { pr with ready := true }

namespace System

variable {F : Hostfile} {s s' : System} {p q : Hostname} {e : Event}

/-! ## What a step does to the network -/

theorem grows_setProcess (s : System) (p : Hostname) (pr : Process) :
    Grows s (s.setProcess p pr) :=
  ⟨fun _ _ _ _ h => h, fun _ _ h => h⟩

theorem processes_setProcess (s : System) (p q : Hostname) (pr : Process) :
    (s.setProcess p pr).processes q = if q = p then pr else s.processes q :=
  Function.update_apply s.processes p pr q

theorem sent_of_step {e : Event} (taken : s.step F e = some s') :
    ∃ more, s'.sent = s.sent ++ more := by
  have post : ∀ closed datagram, ∃ more, (s.post closed datagram).sent = s.sent ++ more := by
    intro closed datagram
    unfold post
    split
    · exact ⟨[], (List.append_nil _).symm⟩
    · exact ⟨[datagram], rfl⟩
  cases stepCases_of_step taken with
  | answer => exact post _ _
  | sent => exact post _ _
  | _ => exact ⟨[], (List.append_nil _).symm⟩

/-- Only a listener that waits for a message takes one, and only one that has been sent. -/
theorem received_of_step {e : Event} (taken : s.step F e = some s') :
    s'.received = s.received ∨ ∃ p n, (s.processes p).receive = .receiveMessage ∧
      n < s.sent.length ∧ s'.received = s.received ++ [(p, n)] := by
  cases stepCases_of_step taken with
  | answer => exact Or.inl (received_post s _ _)
  | sent => exact Or.inl (received_post s _ _)
  | take running place found content addressed =>
      exact Or.inr ⟨_, _, place, (List.getElem?_eq_some_iff.mp content).1, rfl⟩
  | _ => exact Or.inl rfl

theorem grows_of_step {e : Event} (taken : s.step F e = some s') : Grows s s' := by
  obtain ⟨more, sent⟩ := sent_of_step taken
  refine ⟨fun n src dst m old => ?_, fun p n old => ?_⟩
  · have less := (List.getElem?_eq_some_iff.mp old).1
    rw [HasSent, sent, List.getElem?_append_left less]
    exact old
  · unfold HasReceived
    rcases received_of_step taken with same | ⟨p', n', _, _, more⟩
    · rwa [same]
    · rw [more]
      exact List.mem_append_left _ old

/-- Only what has been sent is received. -/
def ReceivesSent (s : System) : Prop :=
  ∀ p n, s.HasReceived p n → n < s.sent.length

theorem ReceivesSent.step (h : ReceivesSent s) {e : Event} (taken : s.step F e = some s') :
    ReceivesSent s' := by
  intro p n received
  obtain ⟨more, sent⟩ := sent_of_step taken
  have longer : s.sent.length ≤ s'.sent.length := by
    rw [sent, List.length_append]
    exact Nat.le_add_right _ _
  unfold HasReceived at received
  rcases received_of_step taken with same | ⟨p', n', _, less, more⟩
  · rw [same] at received
    exact (h p n received).trans_le longer
  · rw [more] at received
    rcases List.mem_append.mp received with old | new
    · exact (h p n old).trans_le longer
    · cases List.mem_singleton.mp new
      exact less.trans_le longer

theorem receivesSent_of_reachable (reach : Reach (step F) Always (initial F) s) :
    ReceivesSent s := by
  refine reach.invariant (P := ReceivesSent) ?_ fun _ _ _ h _ taken => h.step taken
  intro p n received
  cases received

/-! ## What a step does to a process -/

theorem processCases_receive {pr next : Process}
    (stepped : pr.receiveStep (F.peerHostnames p) = some next) :
    ProcessCases F p pr (.receive p) next := by
  unfold Process.receiveStep at stepped
  split at stepped
  · rename_i place
    cases stepped
    exact .bind place
  · rename_i place
    cases stepped
    exact .signal place
  · rename_i place
    split at stepped
    · rename_i unheard
      cases stepped
      exact .listen place (Or.inl unheard)
    · rename_i heard
      split at stepped
      · cases stepped
      · split at stepped
        · rename_i unanswered
          cases stepped
          exact .listen place (Or.inr unanswered)
        · rename_i answered
          cases stepped
          exact .leave place (not_not.mp heard) (not_not.mp answered)
  · rename_i place
    split at stepped
    · cases stepped
    · cases stepped
      exact .remove place
  · cases stepped

theorem processCases_alive {pr next : Process} (stepped : pr.aliveStep = some next) :
    ProcessCases F p pr (.alive p) next := by
  unfold Process.aliveStep at stepped
  split at stepped
  · rename_i place
    cases stepped
    exact .add place
  · rename_i place
    cases stepped
    exact .added place
  · rename_i place
    split at stepped
    · cases stepped
      exact .start place
    · cases stepped
  · rename_i place
    split at stepped
    · rename_i stopped
      cases stepped
      exact .stop place stopped
    · rename_i goes
      cases stepped
      exact .round place (Bool.eq_false_iff.mpr goes)
  · rename_i rest place
    split at stepped
    · rename_i none
      subst none
      cases stepped
      exact .roundDone place
    · cases stepped
  · rename_i rest place
    split at stepped
    · rename_i none
      subst none
      cases stepped
      exact .closed place
    · cases stepped
  · cases stepped

/-- A step of a thread of `p'`, seen from `p`. -/
theorem processCases_setProcess {s₁ : System} {p' : Hostname} {next : Process}
    (owner : e.host = some p') (here : ProcessCases F p' (s.processes p') e next)
    (same : s₁.processes = s.processes) :
    ProcessCases F p (s.processes p) e ((s₁.setProcess p' next).processes p) := by
  rw [processes_setProcess, same]
  split
  · rename_i eq
    subst eq
    exact here
  · rename_i other
    refine .other fun eq => other ?_
    rw [owner] at eq
    exact (Option.some.inj eq).symm

theorem processCases_of_step (taken : s.step F e = some s') (p : Hostname) :
    ProcessCases F p (s.processes p) e (s'.processes p) := by
  cases e with
  | receive p' =>
      unfold step at taken
      dsimp only at taken
      split at taken
      · obtain ⟨next, stepped, rfl⟩ := Option.map_eq_some_iff.mp taken
        exact processCases_setProcess rfl (processCases_receive stepped) rfl
      · cases taken
  | receiveMessage p' i copy =>
      unfold step at taken
      dsimp only at taken
      split at taken
      · rename_i guard
        split at taken
        · split at taken
          · rename_i datagram content
            split at taken
            · cases taken
              obtain ⟨src, dst, message⟩ := datagram
              refine processCases_setProcess rfl ?_ rfl
              cases message with
              | alive => exact .takeAlive guard.2
              | ack n => exact .takeAck guard.2
            · cases taken
          · cases taken
        · cases taken
      · cases taken
  | sendingAckMessages p' resolved =>
      unfold step at taken
      dsimp only at taken
      split at taken
      · split at taken
        · rename_i place
          split at taken
          · rename_i udpSender
            cases taken
            obtain ⟨udpSenders, rfl⟩ := getUDPSender_eq udpSender
            exact processCases_setProcess rfl (.answer place) (processes_post s _ _)
          · rename_i unresolved
            cases taken
            exact processCases_setProcess rfl (.crash place unresolved) rfl
        · cases taken
      · cases taken
  | alive p' =>
      unfold step at taken
      dsimp only at taken
      split at taken
      · obtain ⟨next, stepped, rfl⟩ := Option.map_eq_some_iff.mp taken
        exact processCases_setProcess rfl (processCases_alive stepped) rfl
      · cases taken
  | sendMessage p' q resolved =>
      unfold step at taken
      dsimp only at taken
      split at taken
      · split at taken
        · rename_i place
          split at taken
          · rename_i mem
            split at taken
            · rename_i udpSender
              cases taken
              obtain ⟨udpSenders, rfl⟩ := getUDPSender_eq udpSender
              exact processCases_setProcess rfl (.sent place mem) (processes_post s _ _)
            · cases taken
              exact processCases_setProcess rfl (.sent place mem) rfl
          · cases taken
        · cases taken
      · cases taken
  | closeConnection p' q =>
      unfold step at taken
      dsimp only at taken
      split at taken
      · split at taken
        · rename_i place
          split at taken
          · rename_i mem
            cases taken
            exact processCases_setProcess rfl (.close place mem) rfl
          · cases taken
        · cases taken
      · cases taken
  | ready p' =>
      unfold step at taken
      dsimp only at taken
      split at taken
      · rename_i guard
        cases taken
        exact processCases_setProcess rfl (.ready guard.2.1 guard.2.2) rfl
      · cases taken
  | lose i =>
      unfold step at taken
      dsimp only at taken
      split at taken
      · cases taken
        exact .other fun none => by cases none
      · cases taken

end System

namespace ProcessCases

variable {F : Hostfile} {p q : Hostname} {pr next : Process} {e : Event}

/-- Once the socket is bound, the listener expects fewer and fewer. -/
theorem expects (h : ProcessCases F p pr e next) (bound : pr.receive ≠ .bind) :
    next.receive ≠ .bind ∧ next.validSenders ⊆ pr.validSenders := by
  cases h with
  | bind place => exact absurd place bound
  | answer => exact ⟨fun away => (by cases away), Finset.erase_subset _ _⟩
  | signal | listen | leave | remove | takeAlive | takeAck =>
      exact ⟨fun away => (by cases away), Finset.Subset.refl _⟩
  | _ => exact ⟨bound, Finset.Subset.refl _⟩

/-- Once the list of receivers is full, it gets shorter and shorter. -/
theorem receivers (h : ProcessCases F p pr e next)
    (filled : ∀ rest, pr.alive ≠ .addToAliveMessageReceiverList rest) :
    (∀ rest, next.alive ≠ .addToAliveMessageReceiverList rest) ∧
      next.aliveMessageReceivers ⊆ pr.aliveMessageReceivers := by
  cases h with
  | add place => exact absurd place (filled _)
  | added place => exact absurd place (filled _)
  | remove => exact ⟨filled, Finset.erase_subset _ _⟩
  | start | stop | round | sent | roundDone | close | closed =>
      exact ⟨fun _ away => (by cases away), Finset.Subset.refl _⟩
  | _ => exact ⟨filled, Finset.Subset.refl _⟩

/-- A host that is being taken off the list of receivers stays so until it is off the list. -/
theorem removing (h : ProcessCases F p pr e next)
    (place : pr.receive = .removeFromAliveMessageReceiverList q) :
    next.receive = .removeFromAliveMessageReceiverList q ∨ q ∉ next.aliveMessageReceivers := by
  cases h with
  | bind place' | signal place' | listen place' | leave place' | takeAlive place' | takeAck place'
  | answer place' =>
      rw [place] at place'
      cases place'
  | remove place' =>
      rw [place] at place'
      cases place'
      exact Or.inr (Finset.notMem_erase _ _)
  | _ => exact Or.inl place

/-! ## What holds of one process -/

theorem flag (h : ProcessCases F p pr e next)
    (old : pr.receive ≠ .bind → pr.receive ≠ .signal → pr.heartbeatReceiverReady = true) :
    next.receive ≠ .bind → next.receive ≠ .signal → next.heartbeatReceiverReady = true := by
  cases h with
  | bind => exact fun _ away => absurd rfl away
  | signal => exact fun _ _ => rfl
  | listen place | leave place | remove place | takeAlive place | takeAck place | answer place =>
      exact fun _ _ => old (by rw [place]; exact fun away => by cases away)
        (by rw [place]; exact fun away => by cases away)
  | _ => exact old

theorem expected (h : ProcessCases F p pr e next)
    (old : ∀ q ∈ pr.validSenders, q ∈ F.peerHostnames p) :
    ∀ q ∈ next.validSenders, q ∈ F.peerHostnames p := by
  cases h with
  | bind => exact fun q mem => List.mem_toFinset.mp mem
  | answer => exact fun q mem => old q (Finset.mem_of_mem_erase mem)
  | _ => exact old

theorem waits (h : ProcessCases F p pr e next)
    (old : pr.receive = .receiveMessage →
      pr.validSenders ≠ ∅ ∨ pr.aliveMessageReceivers ≠ ∅) :
    next.receive = .receiveMessage →
      next.validSenders ≠ ∅ ∨ next.aliveMessageReceivers ≠ ∅ := by
  cases h with
  | listen _ waits => exact fun _ => waits
  | add => exact fun _ => Or.inr (Finset.insert_ne_empty _ _)
  | bind | signal | leave | remove | takeAlive | takeAck | answer =>
      exact fun away => by cases away
  | _ => exact old

theorem sendersOpen (h : ProcessCases F p pr e next)
    (old : (∀ rest, pr.alive ≠ .closeConnection rest) → pr.alive ≠ .done → pr.closed = ∅) :
    (∀ rest, next.alive ≠ .closeConnection rest) → next.alive ≠ .done → next.closed = ∅ := by
  cases h with
  | stop | close => exact fun away => absurd rfl (away _)
  | closed => exact fun _ away => absurd rfl away
  | add place | added place | start place | round place | sent place | roundDone place =>
      exact fun _ _ => old (by rw [place]; exact fun _ away => by cases away)
        (by rw [place]; exact fun away => by cases away)
  | _ => exact old

/-- The alive thread is told to stop when the full list gets empty. -/
theorem told (h : ProcessCases F p pr e next)
    (filling : ∀ rest, pr.alive = .addToAliveMessageReceiverList rest →
      ∀ q ∈ F.peerHostnames p, q ∈ rest ∨ q ∈ pr.aliveMessageReceivers)
    (old : (∀ rest, pr.alive ≠ .addToAliveMessageReceiverList rest) →
      pr.aliveMessageReceivers = ∅ → F.peerHostnames p ≠ [] → pr.stopAliveMessageLoop = true) :
    (∀ rest, next.alive ≠ .addToAliveMessageReceiverList rest) →
      next.aliveMessageReceivers = ∅ → F.peerHostnames p ≠ [] →
        next.stopAliveMessageLoop = true := by
  cases h with
  | add => exact fun away => absurd rfl (away _)
  | added place =>
      intro _ none peers
      obtain ⟨q, peer⟩ := List.exists_mem_of_ne_nil _ peers
      rcases filling [] place q peer with mem | mem
      · cases mem
      · change pr.aliveMessageReceivers = ∅ at none
        rw [none] at mem
        exact absurd mem (Finset.notMem_empty q)
  | remove =>
      intro _ none _
      change (_ || decide _) = true
      rw [decide_eq_true none, Bool.or_true]
  | start place | stop place | round place | sent place | roundDone place | close place
  | closed place =>
      exact fun _ => old (by rw [place]; exact fun _ away => by cases away)
  | _ => exact old

end ProcessCases

/-- What holds of a process by itself. -/
structure Local (F : Hostfile) (p : Hostname) (pr : Process) : Prop where
  flag : pr.receive ≠ .bind → pr.receive ≠ .signal → pr.heartbeatReceiverReady = true
  expected : ∀ q ∈ pr.validSenders, q ∈ F.peerHostnames p
  /-- A listener waits for a message only as long as it has a reason to. -/
  waits : pr.receive = .receiveMessage → pr.validSenders ≠ ∅ ∨ pr.aliveMessageReceivers ≠ ∅
  sendersOpen : (∀ rest, pr.alive ≠ .closeConnection rest) → pr.alive ≠ .done → pr.closed = ∅
  told : (∀ rest, pr.alive ≠ .addToAliveMessageReceiverList rest) →
    pr.aliveMessageReceivers = ∅ → F.peerHostnames p ≠ [] → pr.stopAliveMessageLoop = true

namespace System

variable {F : Hostfile} {s s' : System} {p q : Hostname} {e : Event}

/-! ## What holds of a host and its peers -/

/-- The numbers of the `Ack`s of host `p` to host `q` that have reached the network. -/
def acks (s : System) (p q : Hostname) : List ℕ :=
  (List.range s.sent.length).filter fun a =>
    match s.sent[a]? with
    | some ⟨src, dst, .ack _⟩ => src = p ∧ dst = q
    | _ => false

theorem mem_acks {p q : Hostname} {a : ℕ} :
    a ∈ s.acks p q ↔ ∃ n, s.HasSent a p q (.ack n) := by
  unfold acks
  rw [List.mem_filter, List.mem_range]
  constructor
  · rintro ⟨_, found⟩
    split at found
    · rename_i src dst n content
      obtain ⟨rfl, rfl⟩ := of_decide_eq_true found
      exact ⟨n, content⟩
    · cases found
  · rintro ⟨n, sent⟩
    refine ⟨(List.getElem?_eq_some_iff.mp sent).1, ?_⟩
    rw [HasSent] at sent
    rw [sent]
    exact decide_eq_true ⟨rfl, rfl⟩

theorem acks_ne_nil {p q : Hostname} : s.acks p q ≠ [] ↔ ∃ a n, s.HasSent a p q (.ack n) := by
  constructor
  · intro some
    obtain ⟨a, mem⟩ := List.exists_mem_of_ne_nil _ some
    exact ⟨a, mem_acks.mp mem⟩
  · rintro ⟨a, n, sent⟩
    exact List.ne_nil_of_mem (mem_acks.mpr ⟨n, sent⟩)

/-- Who has been sent an `Ack` is not expected any more. -/
def Erased (s : System) (p q : Hostname) : Prop :=
  s.acks p q ≠ [] → (s.processes p).receive ≠ .bind ∧ q ∉ (s.processes p).validSenders

/-- The listener of `p` has taken an `Ack` of `q`. -/
def HasAck (s : System) (p q : Hostname) : Prop :=
  ∃ a n, s.HasSent a q p (.ack n) ∧ s.HasReceived p a

/-- Whose `Ack` has been taken is off the list of receivers, or about to be. -/
def Removed (s : System) (p q : Hostname) : Prop :=
  s.HasAck p q → q ∉ (s.processes p).aliveMessageReceivers ∨
    (s.processes p).receive = .removeFromAliveMessageReceiverList q

theorem ack_of_step (taken : s.step F e = some s') {a n : ℕ} (sent : s'.HasSent a p q (.ack n)) :
    s.HasSent a p q (.ack n) ∨
      (s'.processes p).receive = .test ∧ q ∉ (s'.processes p).validSenders := by
  cases stepCases_of_step taken with
  | answer =>
      rcases hasSent_post sent with old | new
      · exact Or.inl old
      · cases new
        refine Or.inr ?_
        rw [processes_setProcess, if_pos rfl]
        exact ⟨rfl, Finset.notMem_erase _ _⟩
  | sent =>
      rcases hasSent_post sent with old | new
      · exact Or.inl old
      · cases new
  | _ => exact Or.inl sent

theorem Erased.step (h : s.Erased p q) (taken : s.step F e = some s') : s'.Erased p q := by
  intro some
  obtain ⟨a, n, sent⟩ := acks_ne_nil.mp some
  rcases ack_of_step taken sent with old | ⟨place, gone⟩
  · obtain ⟨bound, gone⟩ := h (acks_ne_nil.mpr ⟨a, n, old⟩)
    obtain ⟨bound', fewer⟩ := (processCases_of_step taken p).expects bound
    exact ⟨bound', fun mem => gone (fewer mem)⟩
  · rw [place]
    exact ⟨fun away => (by cases away), gone⟩

theorem taken_of_step (taken : s.step F e = some s') {a : ℕ} (received : s'.HasReceived p a) :
    s.HasReceived p a ∨ ∃ datagram, s.sent[a]? = some datagram ∧
      s'.processes p = (s.processes p).take (F.senderName datagram.src) a datagram.message := by
  cases stepCases_of_step taken with
  | answer =>
      refine Or.inl ?_
      unfold HasReceived at received ⊢
      rwa [← received_post]
  | sent =>
      refine Or.inl ?_
      unfold HasReceived at received ⊢
      rwa [← received_post]
  | @take p' i copy number datagram running place found content addressed =>
      rcases List.mem_append.mp received with old | new
      · exact Or.inl old
      · cases List.mem_singleton.mp new
        refine Or.inr ⟨datagram, content, ?_⟩
        rw [deliver, processes_setProcess, if_pos rfl]
  | _ => exact Or.inl received

theorem hasSent_of_step (taken : s.step F e = some s') {a : ℕ} (less : a < s.sent.length)
    {src dst : Hostname} {m : Message} (sent : s'.HasSent a src dst m) : s.HasSent a src dst m := by
  obtain ⟨more, grown⟩ := sent_of_step taken
  rwa [HasSent, grown, List.getElem?_append_left less] at sent

/-- Only hosts take steps. -/
theorem host_of_step (taken : s.step F e = some s') (moved : s'.processes p ≠ s.processes p) :
    p ∈ F.hostnames := by
  by_contra stranger
  have elsewhere {p' : Hostname} (running : s.running F p') : ¬ p = p' := by
    rintro rfl
    exact stranger running.1
  apply moved
  cases stepCases_of_step taken with
  | lose => rfl
  | take running => rw [deliver, processes_setProcess, if_neg (elsewhere running)]
  | answer running => rw [processes_setProcess, if_neg (elsewhere running), processes_post]
  | sent running => rw [processes_setProcess, if_neg (elsewhere running), processes_post]
  | bind running | signal running | listen running | leave running | remove running
  | crash running | add running | added running | start running | stop running | round running
  | unsent running | roundDone running | close running | closed running | ready running =>
      rw [processes_setProcess, if_neg (elsewhere running)]

section Dotless

variable (dotless : ∀ h ∈ F.hostnames, '.' ∉ h)
include dotless

theorem dotless_peers (p : Hostname) : ∀ q ∈ F.peerHostnames p, '.' ∉ q :=
  fun q peer => dotless q (Hostfile.mem_peerHostnames.mp peer).1

theorem Sound.sender_of_ack (sound : Sound F s) {a n : ℕ} (ack : s.HasSent a q p (.ack n)) :
    q ∈ F.hostnames ∧ F.senderName q = q := by
  obtain ⟨src, alive, _, _⟩ := sound.answers a q p n ack
  have host := (Hostfile.mem_peerHostnames.mp (sound.toPeers n src q alive).2).1
  exact ⟨host, Hostfile.senderName_eq (dotless q host)⟩

theorem Sound.answered_of_ack (sound : Sound F s) (ack : s.HasAck p q) : s.Answered F p q := by
  obtain ⟨a, n, ack, received⟩ := ack
  exact ⟨a, q, n, ack, received, (sound.sender_of_ack dotless ack).2⟩

/-- Nobody answers a host whose list of receivers is not full. -/
theorem Sound.not_filling (sound : Sound F s) (answered : s.Answered F p q) (rest : List Hostname) :
    (s.processes p).alive ≠ .addToAliveMessageReceiverList rest := by
  obtain ⟨_, src, n, _, _, _, alive, _⟩ := sound.own (dotless_peers dotless p) answered
  exact (sound.filled n p src alive).1 rest

theorem Sound.filling (sound : Sound F s) {rest : List Hostname}
    (place : (s.processes p).alive = .addToAliveMessageReceiverList rest) :
    ∀ q ∈ F.peerHostnames p, q ∈ rest ∨ q ∈ (s.processes p).aliveMessageReceivers := by
  intro q peer
  by_cases mem : q ∈ (s.processes p).aliveMessageReceivers
  · exact Or.inr mem
  · rcases (sound.sends p).answered q peer mem with ⟨rest', place', mem⟩ | answered
    · rw [place] at place'
      cases place'
      exact Or.inl mem
    · exact absurd place (sound.not_filling dotless answered rest)

theorem Removed.step (sound : Sound F s) (known : ReceivesSent s) (h : s.Removed p q)
    (taken : s.step F e = some s') : s'.Removed p q := by
  rintro ⟨a, n, sent, received⟩
  rcases taken_of_step taken received with old | ⟨datagram, content, now⟩
  · have sent := hasSent_of_step taken (known p a old) sent
    have ack : s.HasAck p q := ⟨a, n, sent, old⟩
    have cases := processCases_of_step taken p
    rcases h ack with gone | removing
    · have filled := sound.not_filling dotless (sound.answered_of_ack dotless ack)
      exact Or.inl fun mem => gone ((cases.receivers filled).2 mem)
    · exact (cases.removing removing).symm
  · have sent := hasSent_of_step taken (List.getElem?_eq_some_iff.mp content).1 sent
    have name := (sound.sender_of_ack dotless sent).2
    rw [HasSent, content] at sent
    cases sent
    rw [now, Process.take, name]
    exact Or.inr rfl

/-- What holds of every state. -/
structure Orderly (F : Hostfile) (s : System) : Prop where
  sound : Sound F s
  stops : ∀ p, s.Stops p
  known : ReceivesSent s
  locally : ∀ p, Local F p (s.processes p)
  hosts : ∀ p, (s.processes p).receive ≠ .bind → p ∈ F.hostnames
  erased : ∀ p q, s.Erased p q
  removed : ∀ p q, s.Removed p q

omit dotless in
/-- A host that still has receivers has not left its loop. -/
theorem Orderly.going (h : Orderly F s) (asks : q ∈ (s.processes p).aliveMessageReceivers) :
    (s.processes p).stopAliveMessageLoop = false ∧ (s.processes p).alive ≠ .done ∧
      ∀ rest, (s.processes p).alive ≠ .closeConnection rest := by
  have goes : (s.processes p).stopAliveMessageLoop = false := by
    rw [← Bool.not_eq_true]
    intro stopped
    rw [(h.stops p stopped).1] at asks
    exact Finset.notMem_empty q asks
  refine ⟨goes, fun place => ?_, fun rest place => ?_⟩
  · have stopped := (h.sound.sends p).stopped (Or.inl place)
    rw [goes] at stopped
    cases stopped
  · have stopped := (h.sound.sends p).stopped (Or.inr ⟨rest, place⟩)
    rw [goes] at stopped
    cases stopped

theorem Orderly.step (h : Orderly F s) (taken : s.step F e = some s') : Orderly F s' := by
  refine ⟨h.sound.step taken, fun p => (h.stops p).step h.sound (dotless_peers dotless p) taken,
    h.known.step taken, fun p => ?_, fun p bound => ?_, fun p q => (h.erased p q).step taken,
    fun p q => (h.removed p q).step dotless h.sound h.known taken⟩
  · have cases := processCases_of_step taken p
    have old := h.locally p
    exact ⟨cases.flag old.flag, cases.expected old.expected, cases.waits old.waits,
      cases.sendersOpen old.sendersOpen,
      cases.told (fun _ place => h.sound.filling dotless place) old.told⟩
  · by_cases same : s'.processes p = s.processes p
    · rw [same] at bound
      exact h.hosts p bound
    · exact host_of_step taken same

theorem orderly_of_reachable (reach : Reach (step F) Always (initial F) s) : Orderly F s := by
  refine reach.invariant ?_ fun _ _ _ h _ taken => h.step dotless taken
  refine ⟨sound_initial F, fun p stopped => (by cases stopped),
    fun p n received => (by cases received), fun p => ⟨fun away => absurd rfl away,
      fun q mem => (by cases mem), fun away => (by cases away), fun _ _ => rfl,
      fun away => absurd rfl (away _)⟩,
    fun p away => absurd rfl away, fun p q some => absurd rfl some, ?_⟩
  rintro p q ⟨a, n, sent, _⟩
  cases sent

end Dotless

end System

end GroupComm.Lab0
