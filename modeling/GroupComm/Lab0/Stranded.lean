import GroupComm.Lab0.Threads

/-!
# Hosts that a peer leaves behind

A host stops listening once it has heard every peer and every peer has answered it.  Neither says
that its own `Ack` has come through to a peer, and two things get in the way.

* The network loses the `Ack`.  The peer goes on sending "I am alive", to a host that has left.
* The listener answers over a sender that its own alive thread, which has all its `Ack`s, has
  closed already.  Then the `Ack` never reaches the network, which need not lose anything.

Where neither happens nobody is left behind (`acked_of_left`).
-/

namespace GroupComm.Lab0

open Transition

namespace System

/-- Some `Ack` of `p` to `q` has not been lost. -/
def Survives (s : System) (p q : Hostname) : Prop :=
  ∃ a ∈ s.acks p q, s.HasReceived q a ∨ a ∈ s.inFlight

instance (s : System) (p q : Hostname) : Decidable (s.Survives p q) :=
  inferInstanceAs (Decidable (∃ a ∈ s.acks p q, _ ∈ s.received ∨ a ∈ s.inFlight))

/-- The next step of the listener of `p` leaves the loop. -/
def Leaves (s : System) (p : Hostname) : Prop :=
  (s.processes p).receive = .test ∧ (s.processes p).validSenders = ∅ ∧
    (s.processes p).aliveMessageReceivers = ∅

instance (s : System) (p : Hostname) : Decidable (s.Leaves p) :=
  inferInstanceAs (Decidable (_ ∧ _ ∧ _))

/-- The sender that the listener of `p` is about to answer over is open, or an earlier answer to
the same host has reached the network. -/
def AnswersOpen (s : System) (p : Hostname) : ReceiveState → Prop
  | .sendingAckMessages sender _ => sender ∉ (s.processes p).closed ∨ s.acks p sender ≠ []
  | _ => True

instance decidableAnswersOpen (s : System) (p : Hostname) :
    (place : ReceiveState) → Decidable (s.AnswersOpen p place)
  | .sendingAckMessages _ _ => inferInstanceAs (Decidable (_ ∨ _))
  | .bind | .signal | .test | .receiveMessage | .removeFromAliveMessageReceiverList _ | .left =>
      .isTrue trivial

/-- With `inFlight` still in flight, the datagram is not the last `Ack` of a host that has left. -/
def Spared (s : System) (inFlight : List ℕ) : Datagram → Prop
  | ⟨src, dst, .ack _⟩ => (s.processes src).receive = .left →
      ∃ a ∈ s.acks src dst, s.HasReceived dst a ∨ a ∈ inFlight
  | ⟨_, _, .alive⟩ => True

instance decidableSpared (s : System) (inFlight : List ℕ) :
    (datagram : Datagram) → Decidable (s.Spared inFlight datagram)
  | ⟨src, dst, .ack _⟩ => inferInstanceAs (Decidable ((s.processes src).receive = .left →
      ∃ a ∈ s.acks src dst, _ ∈ s.received ∨ a ∈ inFlight))
  | ⟨_, _, .alive⟩ => .isTrue trivial

/-- No answer goes over a closed sender, and of what a host that leaves has answered to a peer the
network does not lose everything, neither before nor after. -/
def Answering (F : Hostfile) (s : System) : Event → Prop
  | .sendingAckMessages p _ => s.AnswersOpen p (s.processes p).receive
  | .receive p => s.Leaves p → ∀ q ∈ F.peerHostnames p, s.acks p q ≠ [] → s.Survives p q
  | .lose i => ∀ number ∈ s.inFlight[i]?, ∀ datagram ∈ s.sent[number]?,
      s.Spared (s.inFlight.eraseIdx i) datagram
  | _ => True

instance decidableAnswering (F : Hostfile) (s : System) :
    (e : Event) → Decidable (s.Answering F e)
  | .sendingAckMessages p _ => decidableAnswersOpen s p _
  | .receive p => inferInstanceAs (Decidable (s.Leaves p → ∀ q ∈ F.peerHostnames p, _))
  | .lose i => inferInstanceAs
      (Decidable (∀ number ∈ s.inFlight[i]?, ∀ datagram ∈ s.sent[number]?, _))
  | .receiveMessage _ _ _ | .alive _ | .sendMessage _ _ _ | .closeConnection _ _ | .ready _ =>
      .isTrue trivial

variable {F : Hostfile} {s s' : System}

/-- What has reached the network and is not lost stays so. -/
theorem Survives.mono {p q : Hostname} (h : s.Survives p q) (grows : Grows s s')
    (kept : ∀ a n, s.HasSent a p q (.ack n) → a ∈ s.inFlight →
      a ∈ s'.inFlight ∨ s'.HasReceived q a) : s'.Survives p q := by
  obtain ⟨a, mem, alive⟩ := h
  obtain ⟨n, sent⟩ := mem_acks.mp mem
  refine ⟨a, mem_acks.mpr ⟨n, grows.sent _ _ _ _ sent⟩, ?_⟩
  rcases alive with received | inFlight
  · exact Or.inl (grows.received _ _ received)
  · exact (kept a n sent inFlight).symm

/-! ## Who is no longer expected has been answered -/

/-- Every peer that the listener of `p` does not expect any more has been sent an `Ack`. -/
def AcksSent (F : Hostfile) (s : System) (p : Hostname) : Prop :=
  (s.processes p).receive ≠ .bind → ∀ q ∈ F.peerHostnames p, q ∉ (s.processes p).validSenders →
    s.acks p q ≠ []

theorem acks_grow {p q : Hostname} (some : s.acks p q ≠ []) (grows : Grows s s') :
    s'.acks p q ≠ [] := by
  obtain ⟨a, n, sent⟩ := acks_ne_nil.mp some
  exact acks_ne_nil.mpr ⟨a, n, grows.sent _ _ _ _ sent⟩

/-- A step after which the listener of `p` expects whom it expected before. -/
theorem AcksSent.mono {p : Hostname} (h : AcksSent F s p) (grows : Grows s s')
    (bound : (s'.processes p).receive ≠ .bind → (s.processes p).receive ≠ .bind)
    (validSenders : (s'.processes p).validSenders = (s.processes p).validSenders) :
    AcksSent F s' p := by
  intro away q mem gone
  rw [validSenders] at gone
  exact acks_grow (h (bound away) q mem gone) grows

/-- A step of a thread of `p'` that leaves the senders it expects alone. -/
theorem AcksSent.setProcess {p p' : Hostname} {next : Process} (h : AcksSent F s p)
    (bound : next.receive ≠ .bind → (s.processes p').receive ≠ .bind)
    (validSenders : next.validSenders = (s.processes p').validSenders) :
    AcksSent F (s.setProcess p' next) p := by
  refine h.mono (grows_setProcess s p' next) ?_ ?_ <;> rw [processes_setProcess] <;> split
  · rename_i same
    rwa [same]
  · exact id
  · rename_i same
    rwa [same]
  · rfl

theorem AcksSent.of_processes {p : Hostname} (h : AcksSent F s p) (grows : Grows s s')
    (processes : s'.processes = s.processes) : AcksSent F s' p :=
  h.mono grows (by rw [processes]; exact id) (by rw [processes])

/-- The listener of `p'` answers, over an open sender or not for the first time. -/
theorem AcksSent.answer {p p' sender : Hostname} {n : ℕ} {next : Process} (h : AcksSent F s p)
    (bound : (s.processes p').receive ≠ .bind)
    (isOpen : sender ∉ (s.processes p').closed ∨ s.acks p' sender ≠ [])
    (validSenders : next.validSenders = (s.processes p').validSenders.erase sender) :
    AcksSent F ((s.post (decide (sender ∈ (s.processes p').closed))
      ⟨p', sender, .ack n⟩).setProcess p' next) p := by
  have grows := (grows_post s (decide (sender ∈ (s.processes p').closed)) ⟨p', sender, .ack n⟩)
  intro away q mem gone
  rw [processes_setProcess] at away gone
  refine acks_grow ?_ (grows_setProcess _ p' next)
  split at gone
  · rename_i same
    subst same
    rw [validSenders] at gone
    by_cases answered : q = sender
    · subst answered
      rcases isOpen with isOpen | already
      · rw [decide_eq_false isOpen]
        exact acks_ne_nil.mpr ⟨_, n, List.getElem?_concat_length⟩
      · exact acks_grow already grows
    · exact acks_grow (h bound q mem fun expected =>
        gone (Finset.mem_erase.mpr ⟨answered, expected⟩)) grows
  · rename_i other
    rw [if_neg other, processes_post] at away
    rw [processes_post] at gone
    exact acks_grow (h away q mem gone) grows

theorem AcksSent.step {p : Hostname} (h : AcksSent F s p) {e : Event}
    (answering : s.Answering F e) (taken : s.step F e = some s') : AcksSent F s' p := by
  cases stepCases_of_step taken with
  | @bind p' running place =>
      intro away q mem gone
      rw [processes_setProcess] at away gone
      split at gone
      · rename_i same
        subst same
        exact (gone (List.mem_toFinset.mpr mem)).elim
      · rename_i other
        rw [if_neg other] at away
        exact h away q mem gone
  | signal running place => exact h.setProcess (fun _ => by rw [place]; exact nofun) rfl
  | listen running place => exact h.setProcess (fun _ => by rw [place]; exact nofun) rfl
  | leave running place => exact h.setProcess (fun _ => by rw [place]; exact nofun) rfl
  | remove running place => exact h.setProcess (fun _ => by rw [place]; exact nofun) rfl
  | @take p' i copy number datagram running place found content addressed =>
      have before : AcksSent F
          { s with
            inFlight := if copy then s.inFlight else s.inFlight.eraseIdx i
            received := s.received ++ [(p', number)] } p :=
        h.of_processes ⟨fun _ _ _ _ old => old, fun _ _ old => List.mem_append_left _ old⟩ rfl
      refine before.setProcess (fun _ => ?_) ?_
      · dsimp only
        rw [place]
        exact nofun
      · cases datagram.message <;> rfl
  | @answer p' resolved sender n pr running place udpSender =>
      obtain ⟨udpSenders, rfl⟩ := getUDPSender_eq udpSender
      rw [Answering, place] at answering
      exact h.answer (by rw [place]; exact nofun) answering rfl
  | crash => exact h.setProcess id rfl
  | add => exact h.setProcess id rfl
  | added => exact h.setProcess id rfl
  | start => exact h.setProcess id rfl
  | stop => exact h.setProcess id rfl
  | round => exact h.setProcess id rfl
  | @sent p' q resolved rest pr running place mem udpSender =>
      obtain ⟨udpSenders, rfl⟩ := getUDPSender_eq udpSender
      refine (h.of_processes (grows_post s _ _) (processes_post s _ _)).setProcess ?_ ?_ <;>
        rw [processes_post]
      exact id
  | unsent => exact h.setProcess id rfl
  | roundDone => exact h.setProcess id rfl
  | close => exact h.setProcess id rfl
  | closed => exact h.setProcess id rfl
  | ready => exact h.setProcess id rfl
  | lose => exact h.of_processes ⟨fun _ _ _ _ old => old, fun _ _ old => old⟩ rfl

theorem acksSent_of_reachable (reach : Reach (step F) (Answering F) (initial F) s)
    (p : Hostname) : AcksSent F s p := by
  refine reach.invariant (P := fun s => AcksSent F s p) (fun away => (away rfl).elim) ?_
  exact fun _ _ _ h answering taken => h.step answering taken

/-! ## Nobody is left behind -/

/-- Of what a host that has left has answered, something reaches every peer. -/
def NoneStranded (F : Hostfile) (s : System) : Prop :=
  ∀ p, (s.processes p).receive = .left → ∀ q ∈ F.peerHostnames p, s.Survives p q

/-- A step with which no host leaves and nothing is lost. -/
theorem NoneStranded.mono (h : NoneStranded F s) (grows : Grows s s')
    (left : ∀ p, (s'.processes p).receive = .left → (s.processes p).receive = .left)
    (kept : ∀ a src dst m, s.HasSent a src dst m → a ∈ s.inFlight →
      a ∈ s'.inFlight ∨ s'.HasReceived dst a) : NoneStranded F s' := by
  intro p here q mem
  exact (h p (left p here) q mem).mono grows fun a n sent inFlight =>
    kept a p q (.ack n) sent inFlight

theorem NoneStranded.setProcess (h : NoneStranded F s) {p : Hostname} {next : Process}
    (left : next.receive = .left → (s.processes p).receive = .left) :
    NoneStranded F (s.setProcess p next) := by
  refine h.mono (grows_setProcess s p next) (fun q => ?_) fun _ _ _ _ _ inFlight => Or.inl inFlight
  rw [processes_setProcess]
  split
  · rename_i same
    rwa [same]
  · exact id

theorem NoneStranded.post (h : NoneStranded F s) (closed : Bool) (datagram : Datagram) :
    NoneStranded F (s.post closed datagram) := by
  refine h.mono (grows_post s closed datagram) (fun p => ?_) fun a _ _ _ _ inFlight => Or.inl ?_
  · rw [processes_post]
    exact id
  · unfold System.post
    split
    · exact inFlight
    · exact List.mem_append_left _ inFlight

/-- The listener of `p` leaves, with some `Ack` to every peer not lost. -/
theorem NoneStranded.leave (h : NoneStranded F s) {p : Hostname} {next : Process}
    (survives : ∀ q ∈ F.peerHostnames p, s.Survives p q) :
    NoneStranded F (s.setProcess p next) := by
  intro p' left q mem
  rw [processes_setProcess] at left
  split at left
  · rename_i same
    subst same
    exact survives q mem
  · exact h p' left q mem

/-- What is in flight is still there when the `i`-th datagram has gone, but for that one. -/
theorem mem_eraseIdx_of_mem {l : List ℕ} {i a : ℕ} (mem : a ∈ l) :
    a ∈ l.eraseIdx i ∨ l[i]? = some a := by
  obtain ⟨j, content⟩ := List.mem_iff_getElem?.mp mem
  by_cases same : j = i
  · subst same
    exact Or.inr content
  · exact Or.inl (List.mem_eraseIdx_iff_getElem?.mpr ⟨j, same, content⟩)

/-- The listener of `p` takes a datagram. -/
theorem NoneStranded.take (h : NoneStranded F s) {p : Hostname} {i number : ℕ} {copy : Bool}
    {datagram : Datagram} (found : s.inFlight[i]? = some number)
    (content : s.sent[number]? = some datagram) (addressed : datagram.dst = p) :
    NoneStranded F ({ s with
      inFlight := if copy then s.inFlight else s.inFlight.eraseIdx i }.deliver F p number
        datagram) := by
  have taken : NoneStranded F
      { s with
        inFlight := if copy then s.inFlight else s.inFlight.eraseIdx i
        received := s.received ++ [(p, number)] } := by
    refine h.mono ⟨fun _ _ _ _ old => old, fun _ _ old => List.mem_append_left _ old⟩
      (fun _ => id) fun a src dst m sent inFlight => ?_
    rcases mem_eraseIdx_of_mem (i := i) inFlight with rest | gone
    · refine Or.inl ?_
      change a ∈ if copy then s.inFlight else s.inFlight.eraseIdx i
      split
      · exact inFlight
      · exact rest
    · -- the one that has gone is the one that has been taken
      rw [found] at gone
      cases gone
      rw [HasSent, content] at sent
      cases sent
      subst addressed
      exact Or.inr (List.mem_append_right _ (List.mem_singleton_self _))
  apply taken.setProcess
  intro left
  unfold Process.take at left
  cases message : datagram.message with
  | alive =>
      rw [message] at left
      cases left
  | ack n =>
      rw [message] at left
      cases left

/-- The network loses a datagram, but not the last `Ack` of a host that has left. -/
theorem NoneStranded.lose (h : NoneStranded F s) {i : ℕ}
    (spared : ∀ number ∈ s.inFlight[i]?, ∀ datagram ∈ s.sent[number]?,
      s.Spared (s.inFlight.eraseIdx i) datagram) :
    NoneStranded F { s with inFlight := s.inFlight.eraseIdx i } := by
  intro p left q mem
  obtain ⟨a, ack, here⟩ := h p left q mem
  rcases here with received | inFlight
  · exact ⟨a, ack, Or.inl received⟩
  · rcases mem_eraseIdx_of_mem (i := i) inFlight with rest | lost
    · exact ⟨a, ack, Or.inr rest⟩
    · obtain ⟨n, sent⟩ := mem_acks.mp ack
      exact spared a lost _ sent left

theorem NoneStranded.step (acksSent : ∀ p, AcksSent F s p)
    (h : NoneStranded F s) {e : Event} (answering : s.Answering F e)
    (taken : s.step F e = some s') : NoneStranded F s' := by
  cases stepCases_of_step taken with
  | bind => exact h.setProcess nofun
  | signal => exact h.setProcess nofun
  | listen => exact h.setProcess nofun
  | @leave p running place heard answered =>
      refine h.leave fun q mem => ?_
      refine answering ⟨place, heard, answered⟩ q mem (acksSent p ?_ q mem ?_)
      · rw [place]
        exact nofun
      · rw [heard]
        exact Finset.notMem_empty q
  | remove => exact h.setProcess nofun
  | take running place found content addressed => exact h.take found content addressed
  | answer running place udpSender => exact (h.post _ _).setProcess nofun
  | crash => exact h.setProcess id
  | add => exact h.setProcess id
  | added => exact h.setProcess id
  | start => exact h.setProcess id
  | stop => exact h.setProcess id
  | round => exact h.setProcess id
  | @sent p q resolved rest pr running place mem udpSender =>
      obtain ⟨udpSenders, rfl⟩ := getUDPSender_eq udpSender
      refine (h.post _ _).setProcess ?_
      rw [processes_post]
      exact id
  | unsent => exact h.setProcess id
  | roundDone => exact h.setProcess id
  | close => exact h.setProcess id
  | closed => exact h.setProcess id
  | ready => exact h.setProcess id
  | lose => exact h.lose answering

/-- **Nobody is left behind**, where no answer goes over a closed sender and the network does not
lose all that a host which leaves has answered to a peer: once `p` has left, every other host has
taken an `Ack` of `p` or has one in flight to it. -/
theorem acked_of_left (reach : Reach (step F) (Answering F) (initial F) s) {p : Hostname}
    (left : (s.processes p).receive = .left) {q : Hostname} (host : q ∈ F.hostnames)
    (other : q ≠ p) :
    ∃ a n, s.HasSent a p q (.ack n) ∧ (s.HasReceived q a ∨ a ∈ s.inFlight) := by
  have none : NoneStranded F s := by
    refine reach.invariant_with (P := NoneStranded F)
      (Q := fun s => ∀ p, AcksSent F s p) (fun _ => acksSent_of_reachable) nofun ?_
    exact fun _ _ _ known h answering taken => h.step known answering taken
  obtain ⟨a, mem, here⟩ := none p left q (Hostfile.mem_peerHostnames.mpr ⟨host, other⟩)
  obtain ⟨n, sent⟩ := mem_acks.mp mem
  exact ⟨a, n, sent, here⟩

theorem readyRun_answering :
    allowedAlong (step twoHosts) (Answering twoHosts) (initial twoHosts)
      (firstRound ++ answers ++ stopping) := by
  decide +kernel

theorem acked_bothReady : ((bothReady.processes ['a']).receive = .left ∧
    ['b'] ∈ twoHosts.hostnames ∧ ['b'] ≠ ['a']) ∧
    ∃ a n, bothReady.HasSent a ['a'] ['b'] (.ack n) ∧
      (bothReady.HasReceived ['b'] a ∨ a ∈ bothReady.inFlight) := by
  have left : (bothReady.processes ['a']).receive = .left := by decide +kernel
  have host : ['b'] ∈ twoHosts.hostnames := by decide
  have other : ['b'] ≠ ['a'] := by decide
  exact ⟨⟨left, host, other⟩, acked_of_left
    (Reach.of_isSome readyRun_answering readyRun_some) left host other⟩

/-! A host that is left behind. -/

/-- `a`'s `Ack` is lost, and `a` leaves with the one of `b`. -/
def ackLost : List Event :=
  [.lose 2, .receive ['a'], .receiveMessage ['a'] 1 false, .receive ['a'], .receive ['a']]

/-- In the state that the events lead to `a` has left and `b` gets no `Ack` of it any more. -/
def Strands (events : List Event) : Prop :=
  ∃ s ∈ replay (step twoHosts) (initial twoHosts) events,
    (s.processes ['a']).receive = .left ∧ ¬ s.Survives ['a'] ['b']

instance (events : List Event) : Decidable (Strands events) :=
  inferInstanceAs (Decidable (∃ s ∈ replay (step twoHosts) (initial twoHosts) events, _ ∧ _))

theorem strands_ackLost : Strands (firstRound ++ answers ++ ackLost) := by
  decide +kernel

/-- A host that has left while another one has none of its `Ack`s, with none in flight. -/
theorem left_without_ack : ¬ ∀ (F : Hostfile) (s : System),
    Reach (step F) Always (initial F) s → ∀ p q, (s.processes p).receive = .left →
      q ∈ F.hostnames → q ≠ p →
        ∃ a n, s.HasSent a p q (.ack n) ∧ (s.HasReceived q a ∨ a ∈ s.inFlight) := by
  intro claim
  obtain ⟨s, led, left, lost⟩ := strands_ackLost
  have reach := Reach.of_replay (allowedAlong_always _ _) led
  obtain ⟨a, n, sent, here⟩ := claim twoHosts s reach ['a'] ['b'] left (by decide) (by decide)
  exact lost ⟨a, mem_acks.mpr ⟨n, sent⟩, here⟩

end System

end GroupComm.Lab0
