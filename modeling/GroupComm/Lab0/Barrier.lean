import GroupComm.Lab0.Heartbeat

/-!
# READY is a barrier

When a host logs READY it has heard from every other host, and every other host has answered one
of its messages.

* `Listens` is what the receive thread of a process keeps, `Sends` what its alive thread keeps,
  and `Sound` what holds of the whole system, under any network.
* The list of receivers is filled while the listener is running already, so its being empty says
  nothing by itself.  But no `Ack` arrives before the list is full, and only an `Ack` stops the
  alive thread (`Stops`).
* A name with a dot is never the name of a sender, so a host with such a peer is never READY.
-/

namespace GroupComm.Lab0

open Transition

namespace System

/-- The listener of `p` has taken an "I am alive" for one of host `q`. -/
def Heard (F : Hostfile) (s : System) (p q : Hostname) : Prop :=
  ∃ n src, s.HasSent n src p .alive ∧ s.HasReceived p n ∧ F.senderName src = q

/-- The listener of `p` has taken an `Ack` for one of host `q`. -/
def Answered (F : Hostfile) (s : System) (p q : Hostname) : Prop :=
  ∃ a src n, s.HasSent a src p (.ack n) ∧ s.HasReceived p a ∧ F.senderName src = q

/-- What has been sent and received stays so. -/
structure Grows (s s' : System) : Prop where
  sent : ∀ n src dst m, s.HasSent n src dst m → s'.HasSent n src dst m
  received : ∀ p n, s.HasReceived p n → s'.HasReceived p n

theorem Grows.refl (s : System) : Grows s s :=
  ⟨fun _ _ _ _ h => h, fun _ _ h => h⟩

variable {F : Hostfile} {s s' : System}

theorem Heard.mono {p q : Hostname} (h : s.Heard F p q) (grows : Grows s s') :
    s'.Heard F p q := by
  obtain ⟨n, src, sent, received, name⟩ := h
  exact ⟨n, src, grows.sent _ _ _ _ sent, grows.received _ _ received, name⟩

theorem Answered.mono {p q : Hostname} (h : s.Answered F p q) (grows : Grows s s') :
    s'.Answered F p q := by
  obtain ⟨a, src, n, sent, received, name⟩ := h
  exact ⟨a, src, n, grows.sent _ _ _ _ sent, grows.received _ _ received, name⟩

/-! ## The two threads -/

structure Listens (F : Hostfile) (s : System) (p : Hostname) (pr : Process) : Prop where
  /-- Whoever is no longer expected has been heard. -/
  heard : pr.receive ≠ .bind → ∀ q ∈ F.peerHostnames p, q ∉ pr.validSenders → s.Heard F p q
  answering : ∀ sender n, pr.receive = .sendingAckMessages sender n →
    ∃ src, s.HasSent n src p .alive ∧ s.HasReceived p n ∧ F.senderName src = sender
  removing : ∀ sender, pr.receive = .removeFromAliveMessageReceiverList sender →
    s.Answered F p sender
  left : pr.receive = .left → pr.validSenders = ∅

structure Sends (F : Hostfile) (s : System) (p : Hostname) (pr : Process) : Prop where
  /-- Whoever is no longer a receiver has answered. -/
  answered : ∀ q ∈ F.peerHostnames p, q ∉ pr.aliveMessageReceivers →
    (∃ rest, pr.alive = .addToAliveMessageReceiverList rest ∧ q ∈ rest) ∨ s.Answered F p q
  receivers : ∀ q ∈ pr.aliveMessageReceivers, q ∈ F.peerHostnames p
  adding : ∀ rest, pr.alive = .addToAliveMessageReceiverList rest →
    ∀ q ∈ rest, q ∈ F.peerHostnames p
  sending : ∀ rest, pr.alive = .sendMessage rest → ∀ q ∈ rest, q ∈ F.peerHostnames p
  stopped : (pr.alive = .done ∨ ∃ rest, pr.alive = .closeConnection rest) →
    pr.stopAliveMessageLoop = true

theorem Listens.mono {p : Hostname} {pr : Process} (h : Listens F s p pr) (grows : Grows s s') :
    Listens F s' p pr := by
  obtain ⟨heard, answering, removing, left⟩ := h
  refine ⟨fun bound q mem gone => (heard bound q mem gone).mono grows, fun sender n place => ?_,
    fun sender place => (removing sender place).mono grows, left⟩
  obtain ⟨src, sent, received, name⟩ := answering sender n place
  exact ⟨src, grows.sent _ _ _ _ sent, grows.received _ _ received, name⟩

theorem Sends.mono {p : Hostname} {pr : Process} (h : Sends F s p pr) (grows : Grows s s') :
    Sends F s' p pr := by
  obtain ⟨answered, receivers, adding, sending, stopped⟩ := h
  exact ⟨fun q mem gone => (answered q mem gone).imp_right fun a => a.mono grows, receivers,
    adding, sending, stopped⟩

/-- The receive thread is at a place with nothing at hand. -/
theorem Listens.goOn {p : Hostname} {pr next : Process} (h : Listens F s p pr)
    (bound : pr.receive ≠ .bind) (validSenders : next.validSenders = pr.validSenders)
    (place : next.receive = .test ∨ next.receive = .receiveMessage ∨
      next.receive = .left ∧ pr.validSenders = ∅) : Listens F s p next := by
  refine ⟨fun _ => ?_, fun sender n here => ?_, fun sender here => ?_, fun here => ?_⟩
  · rw [validSenders]
    exact h.heard bound
  · rcases place with place | place | ⟨place, _⟩ <;> rw [place] at here <;> cases here
  · rcases place with place | place | ⟨place, _⟩ <;> rw [place] at here <;> cases here
  · rw [validSenders]
    rcases place with place | place | ⟨_, heard⟩
    · rw [place] at here
      cases here
    · rw [place] at here
      cases here
    · exact heard

/-- The receive thread leaves what the alive thread reads alone. -/
theorem Sends.other {p : Hostname} {pr next : Process} (h : Sends F s p pr)
    (alive : next.alive = pr.alive)
    (receivers : next.aliveMessageReceivers = pr.aliveMessageReceivers)
    (stop : next.stopAliveMessageLoop = pr.stopAliveMessageLoop) : Sends F s p next := by
  obtain ⟨answered, inside, adding, sending, stopped⟩ := h
  refine ⟨?_, ?_, ?_, ?_, ?_⟩
  · rwa [alive, receivers]
  · rwa [receivers]
  · rwa [alive]
  · rwa [alive]
  · rwa [alive, stop]

/-- The alive thread leaves what the receive thread reads alone. -/
theorem Listens.other {p : Hostname} {pr next : Process} (h : Listens F s p pr)
    (receive : next.receive = pr.receive) (validSenders : next.validSenders = pr.validSenders) :
    Listens F s p next := by
  obtain ⟨heard, answering, removing, left⟩ := h
  refine ⟨?_, ?_, ?_, ?_⟩
  · rwa [receive, validSenders]
  · rwa [receive]
  · rwa [receive]
  · rwa [receive, validSenders]

/-- The alive thread goes on, with the list of receivers filled. -/
theorem Sends.goOn {p : Hostname} {pr next : Process} (h : Sends F s p pr)
    (filled : ∀ head rest, pr.alive ≠ .addToAliveMessageReceiverList (head :: rest))
    (receivers : next.aliveMessageReceivers = pr.aliveMessageReceivers)
    (stop : next.stopAliveMessageLoop = pr.stopAliveMessageLoop)
    (place : (next.alive = .wait ∨ next.alive = .test) ∨
      (∃ rest, next.alive = .sendMessage rest ∧ ∀ q ∈ rest, q ∈ F.peerHostnames p) ∨
      (next.alive = .done ∨ ∃ rest, next.alive = .closeConnection rest) ∧
        pr.stopAliveMessageLoop = true) : Sends F s p next := by
  refine ⟨fun q mem gone => ?_, ?_, fun rest here => ?_, fun rest here => ?_, fun here => ?_⟩
  · rw [receivers] at gone
    rcases h.answered q mem gone with ⟨rest, here, inRest⟩ | answered
    · cases rest with
      | nil => cases inRest
      | cons head rest => exact (filled head rest here).elim
    · exact Or.inr answered
  · rw [receivers]
    exact h.receivers
  · rcases place with (place | place) | ⟨_, place, _⟩ | ⟨place | ⟨_, place⟩, _⟩ <;>
      rw [place] at here <;> cases here
  · rcases place with (place | place) | ⟨rest', place, inside⟩ | ⟨place | ⟨_, place⟩, _⟩
    · rw [place] at here
      cases here
    · rw [place] at here
      cases here
    · rw [place] at here
      cases here
      exact inside
    · rw [place] at here
      cases here
    · rw [place] at here
      cases here
  · rw [stop]
    rcases place with (place | place) | ⟨rest', place, inside⟩ | ⟨_, stopped⟩
    · rw [place] at here
      rcases here with here | ⟨_, here⟩ <;> cases here
    · rw [place] at here
      rcases here with here | ⟨_, here⟩ <;> cases here
    · rw [place] at here
      rcases here with here | ⟨_, here⟩ <;> cases here
    · exact stopped

/-! ## The whole system -/

structure Sound (F : Hostfile) (s : System) : Prop where
  listens : ∀ p, Listens F s p (s.processes p)
  sends : ∀ p, Sends F s p (s.processes p)
  finished : ∀ p, (s.processes p).ready = true →
    (s.processes p).receive = .left ∧ (s.processes p).alive = .done
  /-- "I am alive" goes to peers only. -/
  toPeers : ∀ n src dst, s.HasSent n src dst .alive →
    src ∈ F.hostnames ∧ dst ∈ F.peerHostnames src
  /-- And only once the list of receivers is full. -/
  filled : ∀ n src dst, s.HasSent n src dst .alive →
    (∀ rest, (s.processes src).alive ≠ .addToAliveMessageReceiverList rest) ∧
      (s.processes src).alive ≠ .wait
  answers : ∀ a q dst n, s.HasSent a q dst (.ack n) →
    ∃ src, s.HasSent n src q .alive ∧ s.HasReceived q n ∧ F.senderName src = dst

theorem sound_initial (F : Hostfile) : Sound F (initial F) := by
  refine ⟨fun p => ⟨fun bound => (bound rfl).elim, ?_, ?_, ?_⟩, fun p => ⟨?_, ?_, ?_, ?_, ?_⟩,
    ?_, ?_, ?_, ?_⟩
  · intro sender n here
    cases here
  · intro sender here
    cases here
  · intro here
    cases here
  · intro q mem _
    exact Or.inl ⟨_, rfl, mem⟩
  · intro q mem
    cases mem
  · rintro rest ⟨⟩ q mem
    exact mem
  · intro rest here
    cases here
  · rintro (here | ⟨rest, here⟩) <;> cases here
  · intro p here
    cases here
  · intro n src dst sent
    cases sent
  · intro n src dst sent
    cases sent
  · intro a q dst n sent
    cases sent

/-- One process changes, and nothing is sent. -/
theorem Sound.setProcess (h : Sound F s) {p : Hostname} {next : Process}
    (listens : Listens F s p next) (sends : Sends F s p next)
    (finished : next.ready = true → next.receive = .left ∧ next.alive = .done)
    (filled : (∃ n dst, s.HasSent n p dst .alive) →
      (∀ rest, next.alive ≠ .addToAliveMessageReceiverList rest) ∧ next.alive ≠ .wait) :
    Sound F (s.setProcess p next) := by
  have same : Grows s (s.setProcess p next) := ⟨fun _ _ _ _ h => h, fun _ _ h => h⟩
  have change : ∀ {P : Hostname → Process → Prop}, P p next → (∀ q, P q (s.processes q)) →
      ∀ q, P q ((s.setProcess p next).processes q) := by
    intro P here elsewhere q
    change P q (Function.update s.processes p next q)
    rw [Function.update_apply]
    split
    · rename_i here'
      rw [here']
      exact here
    · exact elsewhere q
  refine ⟨fun q => ?_, fun q => ?_, ?_, h.toPeers, fun n src dst sent => ?_, h.answers⟩
  · exact (change (P := fun q pr => Listens F s q pr) listens h.listens q).mono same
  · exact (change (P := fun q pr => Sends F s q pr) sends h.sends q).mono same
  · exact change (P := fun _ pr => pr.ready = true → pr.receive = .left ∧ pr.alive = .done)
      finished h.finished
  · exact change (P := fun q pr => (∃ n dst, s.HasSent n q dst .alive) →
      (∀ rest, pr.alive ≠ .addToAliveMessageReceiverList rest) ∧ pr.alive ≠ .wait) filled
      (fun q sent => by
        obtain ⟨n, dst, sent⟩ := sent
        exact h.filled n q dst sent) src ⟨n, dst, sent⟩

/-- Datagrams are taken or lost. -/
theorem Sound.of_sent (h : Sound F s) (processes : s'.processes = s.processes)
    (sent : s'.sent = s.sent) (received : ∀ p n, s.HasReceived p n → s'.HasReceived p n) :
    Sound F s' := by
  have same : ∀ n src dst m, s'.HasSent n src dst m ↔ s.HasSent n src dst m := by
    intro n src dst m
    rw [HasSent, HasSent, sent]
  have grows : Grows s s' := ⟨fun n src dst m => (same n src dst m).mpr, received⟩
  refine ⟨fun p => ?_, fun p => ?_, ?_, ?_, ?_, ?_⟩
  · rw [processes]
    exact (h.listens p).mono grows
  · rw [processes]
    exact (h.sends p).mono grows
  · rw [processes]
    exact h.finished
  · simpa only [same] using h.toPeers
  · simpa only [same, processes] using h.filled
  · intro a q dst n answer
    obtain ⟨src, alive, taken, name⟩ := h.answers a q dst n ((same _ _ _ _).mp answer)
    exact ⟨src, grows.sent _ _ _ _ alive, received _ _ taken, name⟩

theorem grows_post (s : System) (closed : Bool) (datagram : Datagram) :
    Grows s (s.post closed datagram) := by
  unfold post
  split
  · exact .refl s
  · refine ⟨fun n src dst m sent => ?_, fun _ _ h => h⟩
    have less := (List.getElem?_eq_some_iff.mp sent).1
    rw [HasSent, List.getElem?_append_left less]
    exact sent

/-- What is on the network after a message has been sent. -/
theorem hasSent_post {closed : Bool} {datagram : Datagram} {n : ℕ} {src dst : Hostname}
    {m : Message} (sent : (s.post closed datagram).HasSent n src dst m) :
    s.HasSent n src dst m ∨ datagram = ⟨src, dst, m⟩ := by
  unfold post at sent
  split at sent
  · exact Or.inl sent
  · rw [HasSent, List.getElem?_append] at sent
    split at sent
    · exact Or.inl sent
    · rw [List.getElem?_singleton] at sent
      split at sent
      · exact Or.inr (Option.some.inj sent)
      · cases sent

theorem processes_post (s : System) (closed : Bool) (datagram : Datagram) :
    (s.post closed datagram).processes = s.processes := by
  unfold post
  split <;> rfl

theorem received_post (s : System) (closed : Bool) (datagram : Datagram) :
    (s.post closed datagram).received = s.received := by
  unfold post
  split <;> rfl

/-- A message is sent. -/
theorem Sound.post (h : Sound F s) {closed : Bool} {datagram : Datagram}
    (alive : datagram.message = .alive → (datagram.src ∈ F.hostnames ∧
      datagram.dst ∈ F.peerHostnames datagram.src) ∧
        (∀ rest, (s.processes datagram.src).alive ≠ .addToAliveMessageReceiverList rest) ∧
          (s.processes datagram.src).alive ≠ .wait)
    (answer : ∀ n, datagram.message = .ack n → ∃ src, s.HasSent n src datagram.src .alive ∧
      s.HasReceived datagram.src n ∧ F.senderName src = datagram.dst) :
    Sound F (s.post closed datagram) := by
  have grows := grows_post s closed datagram
  refine ⟨fun p => ?_, fun p => ?_, ?_, fun n src dst sent => ?_, fun n src dst sent => ?_,
    fun a q dst n sent => ?_⟩
  · rw [processes_post]
    exact (h.listens p).mono grows
  · rw [processes_post]
    exact (h.sends p).mono grows
  · rw [processes_post]
    exact h.finished
  · rcases hasSent_post sent with old | rfl
    · exact h.toPeers n src dst old
    · exact (alive rfl).1
  · rw [processes_post]
    rcases hasSent_post sent with old | rfl
    · exact h.filled n src dst old
    · exact (alive rfl).2
  · have known : ∃ src, s.HasSent n src q .alive ∧ s.HasReceived q n ∧
        F.senderName src = dst := by
      rcases hasSent_post sent with old | rfl
      · exact h.answers a q dst n old
      · exact answer n rfl
    obtain ⟨src, alive, taken, name⟩ := known
    exact ⟨src, grows.sent _ _ _ _ alive, grows.received _ _ taken, name⟩

/-- A process that is not past its two threads has not logged READY. -/
theorem Sound.notReady (h : Sound F s) {p : Hostname}
    (busy : (s.processes p).receive ≠ .left ∨ (s.processes p).alive ≠ .done) :
    (s.processes p).ready ≠ true := by
  intro ready
  obtain ⟨left, done⟩ := h.finished p ready
  rcases busy with busy | busy
  · exact busy left
  · exact busy done

/-- A step of the receive thread of `p`. -/
theorem Sound.receiveThread (h : Sound F s) {p : Hostname} {next : Process}
    (busy : (s.processes p).receive ≠ .left) (ready : next.ready = (s.processes p).ready)
    (alive : next.alive = (s.processes p).alive) (listens : Listens F s p next)
    (sends : Sends F s p next) : Sound F (s.setProcess p next) := by
  refine h.setProcess listens sends (fun now => ?_) ?_
  · rw [ready] at now
    exact (h.notReady (Or.inl busy) now).elim
  · rintro ⟨n, dst, sent⟩
    rw [alive]
    exact h.filled n p dst sent

/-- A step of the alive thread of `p`. -/
theorem Sound.aliveThread (h : Sound F s) {p : Hostname} {next : Process}
    (busy : (s.processes p).alive ≠ .done) (ready : next.ready = (s.processes p).ready)
    (receive : next.receive = (s.processes p).receive)
    (validSenders : next.validSenders = (s.processes p).validSenders)
    (sends : Sends F s p next)
    (filled : (∃ n dst, s.HasSent n p dst .alive) →
      (∀ rest, next.alive ≠ .addToAliveMessageReceiverList rest) ∧ next.alive ≠ .wait) :
    Sound F (s.setProcess p next) := by
  refine h.setProcess ((h.listens p).other receive validSenders) sends (fun now => ?_) filled
  rw [ready] at now
  exact (h.notReady (Or.inr busy) now).elim

/-- The alive thread of `p` goes on in `startSendingAliveMessages`. -/
theorem Sound.goOn (h : Sound F s) {p : Hostname} {next : Process}
    (filled : ∀ rest, (s.processes p).alive ≠ .addToAliveMessageReceiverList rest)
    (busy : (s.processes p).alive ≠ .done) (ready : next.ready = (s.processes p).ready)
    (receive : next.receive = (s.processes p).receive)
    (validSenders : next.validSenders = (s.processes p).validSenders)
    (receivers : next.aliveMessageReceivers = (s.processes p).aliveMessageReceivers)
    (stop : next.stopAliveMessageLoop = (s.processes p).stopAliveMessageLoop)
    (place : next.alive = .test ∨
      (∃ rest, next.alive = .sendMessage rest ∧ ∀ q ∈ rest, q ∈ F.peerHostnames p) ∨
      (next.alive = .done ∨ ∃ rest, next.alive = .closeConnection rest) ∧
        (s.processes p).stopAliveMessageLoop = true) : Sound F (s.setProcess p next) := by
  refine h.aliveThread busy ready receive validSenders
    ((h.sends p).goOn (fun head rest => filled (head :: rest)) receivers stop
      (place.imp_left Or.inr)) fun _ => ?_
  rcases place with place | ⟨_, place, _⟩ | ⟨place | ⟨_, place⟩, _⟩ <;> rw [place] <;>
    exact ⟨nofun, nofun⟩

/-! ## Every step keeps it -/

/-- The listener takes a datagram. -/
theorem Sound.take (h : Sound F s) {p : Hostname} {i : ℕ} {copy : Bool} {number : ℕ}
    {datagram : Datagram} (place : (s.processes p).receive = .receiveMessage)
    (content : s.sent[number]? = some datagram) (addressed : datagram.dst = p) :
    Sound F ({ s with
      inFlight := if copy then s.inFlight else s.inFlight.eraseIdx i }.deliver F p number
        datagram) := by
  obtain ⟨src, dst, message⟩ := datagram
  subst addressed
  have taken : Sound F
      { s with
        inFlight := if copy then s.inFlight else s.inFlight.eraseIdx i
        received := s.received ++ [(dst, number)] } :=
    h.of_sent rfl rfl fun _ _ old => List.mem_append_left _ old
  have here : (dst, number) ∈ s.received ++ [(dst, number)] :=
    List.mem_append_right _ (List.mem_singleton_self _)
  have listens := taken.listens dst
  have sends := taken.sends dst
  cases message with
  | alive =>
      refine taken.receiveThread (p := dst) (by rw [place]; exact fun h => nomatch h) rfl rfl ?_
        (sends.other rfl rfl rfl)
      refine ⟨fun _ => listens.heard (by rw [place]; exact fun h => nomatch h), ?_, ?_, ?_⟩
      · rintro sender n ⟨⟩
        exact ⟨src, content, here, rfl⟩
      · intro sender away
        cases away
      · intro away
        cases away
  | ack n =>
      refine taken.receiveThread (p := dst) (by rw [place]; exact fun h => nomatch h) rfl rfl ?_
        (sends.other rfl rfl rfl)
      refine ⟨fun _ => listens.heard (by rw [place]; exact fun h => nomatch h), ?_, ?_, ?_⟩
      · intro sender n away
        cases away
      · rintro sender ⟨⟩
        exact ⟨number, src, n, content, here, rfl⟩
      · intro away
        cases away

/-- The listener answers, or tries to. -/
theorem Sound.answer (h : Sound F s) {p sender : Hostname} {resolved : Bool} {n : ℕ}
    {pr : Process} (place : (s.processes p).receive = .sendingAckMessages sender n)
    (udpSender : (s.processes p).getUDPSender sender resolved = some pr) :
    Sound F ((s.post (decide (sender ∈ pr.closed)) ⟨p, sender, .ack n⟩).setProcess p
      { pr with validSenders := pr.validSenders.erase sender, receive := .test }) := by
  obtain ⟨udpSenders, rfl⟩ := getUDPSender_eq udpSender
  obtain ⟨src, sent, received, name⟩ := (h.listens p).answering sender n place
  have posted : Sound F (s.post (decide (sender ∈ (s.processes p).closed)) ⟨p, sender, .ack n⟩) :=
    h.post (fun away => nomatch away) (by
      rintro _ ⟨⟩
      exact ⟨src, sent, received, name⟩)
  have grows := grows_post s (decide (sender ∈ (s.processes p).closed)) ⟨p, sender, .ack n⟩
  have listens := posted.listens p
  have sends := posted.sends p
  rw [processes_post] at listens sends
  have away : (s.processes p).receive ≠ .bind := by
    rw [place]
    exact fun h => nomatch h
  refine posted.receiveThread ?_ ?_ ?_ ?_ (sends.other rfl rfl rfl)
  · rw [processes_post, place]
    exact fun h => nomatch h
  · rw [processes_post]
  · rw [processes_post]
  · refine ⟨fun _ q mem gone => ?_, ?_, ?_, ?_⟩
    · by_cases same : q = sender
      · subst same
        exact ⟨n, src, grows.sent _ _ _ _ sent, grows.received _ _ received, name⟩
      · exact listens.heard away q mem fun expected =>
          gone (Finset.mem_erase.mpr ⟨same, expected⟩)
    · intro sender n here
      cases here
    · intro sender here
      cases here
    · intro here
      cases here

/-- The listener takes a host that has answered off the list. -/
theorem Sends.remove {p sender : Hostname} {pr : Process} (h : Sends F s p pr)
    (answered : s.Answered F p sender) : Sends F s p
      { pr with
        aliveMessageReceivers := pr.aliveMessageReceivers.erase sender
        stopAliveMessageLoop :=
          pr.stopAliveMessageLoop || decide (pr.aliveMessageReceivers.erase sender = ∅)
        receive := .test } := by
  refine ⟨fun q mem gone => ?_, fun q mem => h.receivers q (Finset.mem_of_mem_erase mem), h.adding,
    h.sending, fun past => ?_⟩
  · by_cases same : q = sender
    · subst same
      exact Or.inr answered
    · exact h.answered q mem fun still => gone (Finset.mem_erase.mpr ⟨same, still⟩)
  · change (_ || _) = true
    rw [h.stopped past, Bool.true_or]

theorem Sends.add {p h : Hostname} {rest : List Hostname} {pr : Process} (sends : Sends F s p pr)
    (place : pr.alive = .addToAliveMessageReceiverList (h :: rest)) : Sends F s p
      { pr with
        aliveMessageReceivers := insert h pr.aliveMessageReceivers
        alive := .addToAliveMessageReceiverList rest } := by
  have inside := sends.adding _ place
  refine ⟨fun q mem gone => ?_, fun q mem => ?_, ?_, ?_, ?_⟩
  · have other : q ≠ h := fun same => gone (Finset.mem_insert.mpr (Or.inl same))
    rcases sends.answered q mem fun still => gone (Finset.mem_insert_of_mem still) with
      ⟨rest', here, inRest⟩ | answered
    · rw [place] at here
      cases here
      exact Or.inl ⟨rest, rfl, (List.mem_cons.mp inRest).resolve_left other⟩
    · exact Or.inr answered
  · rcases Finset.mem_insert.mp mem with rfl | old
    · exact inside q List.mem_cons_self
    · exact sends.receivers q old
  · rintro _ ⟨⟩ q mem
    exact inside q (List.mem_cons_of_mem _ mem)
  · intro rest here
    cases here
  · rintro (here | ⟨rest, here⟩) <;> cases here

/-- **Every step keeps the invariant.** -/
theorem Sound.step (h : Sound F s) {e : Event} (taken : s.step F e = some s') : Sound F s' := by
  cases stepCases_of_step taken with
  | @bind p running place =>
      refine h.receiveThread (by rw [place]; exact fun h => nomatch h) rfl rfl ?_
        ((h.sends p).other rfl rfl rfl)
      refine ⟨fun _ q mem gone => (gone (List.mem_toFinset.mpr mem)).elim, ?_, ?_, ?_⟩
      · intro sender n here
        cases here
      · intro sender here
        cases here
      · intro here
        cases here
  | @signal p running place =>
      have listens := h.listens p
      refine h.receiveThread (by rw [place]; exact fun h => nomatch h) rfl rfl ?_
        ((h.sends p).other rfl rfl rfl)
      exact listens.goOn (by rw [place]; exact fun h => nomatch h) rfl (Or.inl rfl)
  | @listen p running place =>
      refine h.receiveThread (by rw [place]; exact fun h => nomatch h) rfl rfl ?_
        ((h.sends p).other rfl rfl rfl)
      exact (h.listens p).goOn (by rw [place]; exact fun h => nomatch h) rfl (Or.inr (Or.inl rfl))
  | @leave p running place heard answered =>
      refine h.receiveThread (by rw [place]; exact fun h => nomatch h) rfl rfl ?_
        ((h.sends p).other rfl rfl rfl)
      exact (h.listens p).goOn (by rw [place]; exact fun h => nomatch h) rfl
        (Or.inr (Or.inr ⟨rfl, heard⟩))
  | @remove p sender running place =>
      refine h.receiveThread (by rw [place]; exact fun h => nomatch h) rfl rfl ?_
        ((h.sends p).remove ((h.listens p).removing sender place))
      exact (h.listens p).goOn (by rw [place]; exact fun h => nomatch h) rfl (Or.inl rfl)
  | take running place found content addressed => exact h.take place content addressed
  | answer running place udpSender => exact h.answer place udpSender
  | @crash p resolved running =>
      exact h.setProcess ((h.listens p).other rfl rfl) ((h.sends p).other rfl rfl rfl)
        (h.finished p) fun ⟨n, dst, sent⟩ => h.filled n p dst sent
  | @add p head rest running place =>
      refine h.aliveThread (by rw [place]; exact fun h => nomatch h) rfl rfl rfl
        ((h.sends p).add place) ?_
      rintro ⟨n, dst, sent⟩
      exact ((h.filled n p dst sent).1 _ place).elim
  | @added p running place =>
      refine h.aliveThread (by rw [place]; exact fun h => nomatch h) rfl rfl rfl ?_ ?_
      · refine (h.sends p).goOn (fun head rest here => ?_) rfl rfl (Or.inl (Or.inl rfl))
        rw [place] at here
        cases here
      · rintro ⟨n, dst, sent⟩
        exact ((h.filled n p dst sent).1 _ place).elim
  | @start p running place =>
      exact h.goOn (by rw [place]; exact nofun) (by rw [place]; exact nofun) rfl rfl rfl rfl rfl
        (Or.inl rfl)
  | @stop p running place stopped =>
      exact h.goOn (by rw [place]; exact nofun) (by rw [place]; exact nofun) rfl rfl rfl rfl rfl
        (Or.inr (Or.inr ⟨Or.inr ⟨_, rfl⟩, stopped⟩))
  | @round p running place =>
      exact h.goOn (by rw [place]; exact nofun) (by rw [place]; exact nofun) rfl rfl rfl rfl rfl
        (Or.inr (Or.inl ⟨_, rfl, (h.sends p).receivers⟩))
  | @sent p q resolved rest pr running place mem udpSender =>
      obtain ⟨udpSenders, rfl⟩ := getUDPSender_eq udpSender
      have inside := (h.sends p).sending rest place
      have posted : Sound F (s.post (decide (q ∈ (s.processes p).closed)) ⟨p, q, .alive⟩) := by
        refine h.post (fun _ => ⟨⟨running.1, inside q mem⟩, ?_⟩) fun _ away => nomatch away
        dsimp only
        rw [place]
        exact ⟨nofun, nofun⟩
      refine posted.goOn (p := p) ?_ ?_ ?_ ?_ ?_ ?_ ?_ (Or.inr (Or.inl ⟨_, rfl, fun q' mem' =>
        inside q' (Finset.mem_of_mem_erase mem')⟩)) <;> rw [processes_post]
      · rw [place]
        exact nofun
      · rw [place]
        exact nofun
  | @unsent p q resolved rest running place =>
      exact h.goOn (by rw [place]; exact nofun) (by rw [place]; exact nofun) rfl rfl rfl rfl rfl
        (Or.inr (Or.inl ⟨_, rfl, fun q' mem' =>
          (h.sends p).sending rest place q' (Finset.mem_of_mem_erase mem')⟩))
  | @roundDone p rest running place =>
      exact h.goOn (by rw [place]; exact nofun) (by rw [place]; exact nofun) rfl rfl rfl rfl rfl
        (Or.inl rfl)
  | @close p q rest running place =>
      exact h.goOn (by rw [place]; exact nofun) (by rw [place]; exact nofun) rfl rfl rfl rfl rfl
        (Or.inr (Or.inr ⟨Or.inr ⟨_, rfl⟩, (h.sends p).stopped (Or.inr ⟨_, place⟩)⟩))
  | @closed p rest running place =>
      exact h.goOn (by rw [place]; exact nofun) (by rw [place]; exact nofun) rfl rfl rfl rfl rfl
        (Or.inr (Or.inr ⟨Or.inl rfl, (h.sends p).stopped (Or.inr ⟨_, place⟩)⟩))
  | @ready p running left done =>
      exact h.setProcess ((h.listens p).other rfl rfl) ((h.sends p).other rfl rfl rfl)
        (fun _ => ⟨left, done⟩) fun ⟨n, dst, sent⟩ => h.filled n p dst sent
  | lose => exact h.of_sent rfl rfl fun _ _ old => old

theorem sound_of_reachable (reach : Reach (step F) Always (initial F) s) : Sound F s :=
  reach.invariant (sound_initial F) fun _ _ _ h _ taken => h.step taken

/-! ## What stops the alive thread -/

/-- An `Ack` that `p` takes answers an "I am alive" of its own: with no dot in the name of a peer,
no other host is taken for `p`. -/
theorem Sound.own (h : Sound F s) {p q : Hostname}
    (dotless : ∀ q ∈ F.peerHostnames p, '.' ∉ q) (answered : s.Answered F p q) :
    ∃ a src n, s.HasSent a src p (.ack n) ∧ s.HasReceived p a ∧ F.senderName src = q ∧
      s.HasSent n p src .alive ∧ s.HasReceived src n := by
  obtain ⟨a, src, n, ack, received, name⟩ := answered
  obtain ⟨asker, alive, taken, asked⟩ := h.answers a src p n ack
  obtain ⟨known, peer⟩ := h.toPeers n asker src alive
  have same : asker = p := by
    by_contra other
    have dot := dotless asker (Hostfile.mem_peerHostnames.mpr ⟨known, other⟩)
    rw [Hostfile.senderName_eq dot] at asked
    exact other asked
  subst same
  exact ⟨a, src, n, ack, received, name, alive, taken⟩

/-- Once the alive thread has been told to stop, the list of receivers is full and empty again. -/
def Stops (s : System) (p : Hostname) : Prop :=
  (s.processes p).stopAliveMessageLoop = true →
    (s.processes p).aliveMessageReceivers = ∅ ∧
      (∀ rest, (s.processes p).alive ≠ .addToAliveMessageReceiverList rest) ∧
        (s.processes p).alive ≠ .wait

theorem Stops.of_processes {p : Hostname} (stops : s.Stops p)
    (processes : s'.processes p = s.processes p) : s'.Stops p := by
  unfold Stops
  rwa [processes]

/-- Another process changes, or one that leaves alone what matters here. -/
theorem Stops.setProcess {p p' : Hostname} {next : Process} (stops : s.Stops p)
    (here : p' = p → next.stopAliveMessageLoop = true →
      next.aliveMessageReceivers = ∅ ∧
        (∀ rest, next.alive ≠ .addToAliveMessageReceiverList rest) ∧ next.alive ≠ .wait) :
    (s.setProcess p' next).Stops p := by
  unfold Stops
  change (Function.update s.processes p' next p).stopAliveMessageLoop = true → _
  change _ → (Function.update s.processes p' next p).aliveMessageReceivers = ∅ ∧
    (∀ rest, (Function.update s.processes p' next p).alive ≠ _) ∧
      (Function.update s.processes p' next p).alive ≠ _
  rw [Function.update_apply]
  split
  · rename_i same
    exact here same.symm
  · exact stops

/-- A step that leaves the list and the flag alone, and is not in front of the loop. -/
theorem Stops.goOn {p p' : Hostname} {next : Process} (stops : s.Stops p)
    (receivers : next.aliveMessageReceivers = (s.processes p').aliveMessageReceivers)
    (stop : next.stopAliveMessageLoop = (s.processes p').stopAliveMessageLoop)
    (place : next.alive = (s.processes p').alive ∨
      (∀ rest, next.alive ≠ .addToAliveMessageReceiverList rest) ∧ next.alive ≠ .wait) :
    (s.setProcess p' next).Stops p := by
  refine stops.setProcess fun same stopped => ?_
  subst same
  rw [stop] at stopped
  obtain ⟨empty, past⟩ := stops stopped
  refine ⟨receivers.trans empty, ?_⟩
  rcases place with place | past
  · rwa [place]
  · exact past

theorem Stops.post {p : Hostname} (stops : s.Stops p) (closed : Bool) (datagram : Datagram) :
    (s.post closed datagram).Stops p :=
  stops.of_processes (by rw [processes_post])

theorem Stops.step (h : Sound F s) {p : Hostname} (dotless : ∀ q ∈ F.peerHostnames p, '.' ∉ q)
    (stops : s.Stops p) {e : Event} (taken : s.step F e = some s') : s'.Stops p := by
  cases stepCases_of_step taken with
  | bind => exact stops.goOn rfl rfl (Or.inl rfl)
  | signal => exact stops.goOn rfl rfl (Or.inl rfl)
  | listen => exact stops.goOn rfl rfl (Or.inl rfl)
  | leave => exact stops.goOn rfl rfl (Or.inl rfl)
  | @remove p' sender running place =>
      refine stops.setProcess fun same stopped => ?_
      subst same
      have answered := (h.listens p').removing sender place
      obtain ⟨a, src, n, _, _, _, alive, _⟩ := h.own dotless answered
      refine ⟨?_, h.filled n p' src alive⟩
      -- either the flag was set before, with the list empty, or this is what sets it
      rcases Bool.or_eq_true_iff.mp stopped with before | now
      · dsimp only
        rw [(stops before).1, Finset.erase_empty]
      · exact of_decide_eq_true now
  | @take p' i copy number datagram running place found content addressed =>
      unfold deliver
      have before : System.Stops
          { s with
            inFlight := if copy then s.inFlight else s.inFlight.eraseIdx i
            received := s.received ++ [(p', number)] } p := stops
      refine before.goOn ?_ ?_ (Or.inl ?_) <;> cases datagram.message <;> rfl
  | @answer p' resolved sender n pr running place udpSender =>
      obtain ⟨udpSenders, rfl⟩ := getUDPSender_eq udpSender
      refine (stops.post _ _).goOn ?_ ?_ (Or.inl ?_) <;> rw [processes_post]
  | crash => exact stops.goOn rfl rfl (Or.inl rfl)
  | @add p' head rest running place =>
      refine stops.setProcess fun same stopped => ?_
      subst same
      exact ((stops stopped).2.1 _ place).elim
  | @added p' running place =>
      refine stops.setProcess fun same stopped => ?_
      subst same
      exact ((stops stopped).2.1 _ place).elim
  | start => exact stops.goOn rfl rfl (Or.inr ⟨nofun, nofun⟩)
  | stop => exact stops.goOn rfl rfl (Or.inr ⟨nofun, nofun⟩)
  | round => exact stops.goOn rfl rfl (Or.inr ⟨nofun, nofun⟩)
  | @sent p' q resolved rest pr running place mem udpSender =>
      obtain ⟨udpSenders, rfl⟩ := getUDPSender_eq udpSender
      refine (stops.post _ _).goOn ?_ ?_ (Or.inr ⟨nofun, nofun⟩) <;> rw [processes_post]
  | unsent => exact stops.goOn rfl rfl (Or.inr ⟨nofun, nofun⟩)
  | roundDone => exact stops.goOn rfl rfl (Or.inr ⟨nofun, nofun⟩)
  | close => exact stops.goOn rfl rfl (Or.inr ⟨nofun, nofun⟩)
  | closed => exact stops.goOn rfl rfl (Or.inr ⟨nofun, nofun⟩)
  | ready => exact stops.goOn rfl rfl (Or.inl rfl)
  | lose => exact stops

theorem stops_of_reachable (reach : Reach (step F) Always (initial F) s) {p : Hostname}
    (dotless : ∀ q ∈ F.peerHostnames p, '.' ∉ q) : s.Stops p := by
  refine reach.invariant_with (P := fun s => s.Stops p) (fun _ => sound_of_reachable) ?_
    fun _ _ _ h stops _ taken => Stops.step h dotless stops taken
  intro stopped
  cases stopped

/-! ## READY -/

/-- A process that has left its loop has heard every peer, so no peer has a dot in its name. -/
theorem Sound.dotless (h : Sound F s) {p : Hostname} (left : (s.processes p).receive = .left) :
    ∀ q ∈ F.peerHostnames p, '.' ∉ q := by
  intro q peer
  have heard := (h.listens p).heard (by rw [left]; exact nofun) q peer
  rw [(h.listens p).left left] at heard
  obtain ⟨n, src, _, _, name⟩ := heard (Finset.notMem_empty q)
  rw [← name]
  exact F.dotless_senderName src

/-- Where no peer has a dot in its name, who is taken for `q` is `q`. -/
theorem Sound.heard_from (h : Sound F s) {p q : Hostname}
    (dotless : ∀ q ∈ F.peerHostnames p, '.' ∉ q) (heard : s.Heard F p q) :
    ∃ n, s.HasSent n q p .alive ∧ s.HasReceived p n := by
  obtain ⟨n, src, sent, received, name⟩ := heard
  obtain ⟨known, toPeer⟩ := h.toPeers n src p sent
  have src_ne : src ≠ p := fun same => (Hostfile.mem_peerHostnames.mp toPeer).2 same.symm
  have peer := Hostfile.mem_peerHostnames.mpr ⟨known, src_ne⟩
  rw [Hostfile.senderName_eq (dotless src peer)] at name
  subst name
  exact ⟨n, sent, received⟩

theorem Sound.answered_by (h : Sound F s) {p q : Hostname}
    (dotless : ∀ q ∈ F.peerHostnames p, '.' ∉ q) (answered : s.Answered F p q) :
    ∃ n a, s.HasSent n p q .alive ∧ s.HasReceived q n ∧ s.HasSent a q p (.ack n) ∧
      s.HasReceived p a := by
  obtain ⟨a, src, n, ack, received, name, alive, taken⟩ := h.own dotless answered
  rw [Hostfile.senderName_eq (dotless src (h.toPeers n p src alive).2)] at name
  subst name
  exact ⟨n, a, alive, taken, ack, received⟩

/-- **READY is a barrier.**  A host that has logged READY has received an "I am alive" from every
other host, and every other host has received one of its own and answered it with an `Ack` that
has arrived. -/
theorem heard_and_answered_of_ready (reach : Reach (step F) Always (initial F) s) {p : Hostname}
    (ready : (s.processes p).ready = true) {q : Hostname} (host : q ∈ F.hostnames)
    (other : q ≠ p) :
    (∃ n, s.HasSent n q p .alive ∧ s.HasReceived p n) ∧
      ∃ n a, s.HasSent n p q .alive ∧ s.HasReceived q n ∧
        s.HasSent a q p (.ack n) ∧ s.HasReceived p a := by
  have sound := sound_of_reachable reach
  obtain ⟨left, done⟩ := sound.finished p ready
  have dotless := sound.dotless left
  have stops := stops_of_reachable reach dotless
  have peer : q ∈ F.peerHostnames p := Hostfile.mem_peerHostnames.mpr ⟨host, other⟩
  constructor
  · have heard := (sound.listens p).heard (by rw [left]; exact nofun) q peer
    rw [(sound.listens p).left left] at heard
    exact sound.heard_from dotless (heard (Finset.notMem_empty q))
  · have stopped := (sound.sends p).stopped (Or.inl done)
    obtain ⟨empty, _, _⟩ := stops stopped
    have answered := (sound.sends p).answered q peer
    rw [empty, done] at answered
    rcases answered (Finset.notMem_empty q) with ⟨_, away, _⟩ | answered
    · cases away
    · exact sound.answered_by dotless answered

/-! Two hosts that get READY, with one datagram duplicated and one lost. -/

def twoHosts : Hostfile where
  hostnames := [['a'], ['b']]
  nodup := by decide
  networkName := ['n']

/-- Both listen and send one round of messages; `a`'s is 0, `b`'s is 1. -/
def firstRound : List Event :=
  [.receive ['a'], .receive ['a'], .alive ['a'], .alive ['a'], .alive ['a'],
    .receive ['b'], .receive ['b'], .alive ['b'], .alive ['b'], .alive ['b'],
    .alive ['a'], .sendMessage ['a'] ['b'] true, .alive ['a'],
    .alive ['b'], .sendMessage ['b'] ['a'] true, .alive ['b']]

/-- The messages are taken and answered: `b`'s `Ack` is 2, `a`'s is 3. -/
def answers : List Event :=
  [.receive ['b'], .receiveMessage ['b'] 0 true, .sendingAckMessages ['b'] true,
    .receive ['a'], .receiveMessage ['a'] 1 false, .sendingAckMessages ['a'] true]

/-- `a` takes its `Ack` and stops, `b` does so, and the copy of message 0 is lost. -/
def stopping : List Event :=
  [.receive ['a'], .receiveMessage ['a'] 1 false, .receive ['a'], .receive ['a'],
    .receive ['b'], .receiveMessage ['b'] 1 false, .receive ['b'], .receive ['b'], .lose 0,
    .alive ['a'], .closeConnection ['a'] ['b'], .alive ['a'], .ready ['a'],
    .alive ['b'], .closeConnection ['b'] ['a'], .alive ['b'], .ready ['b']]

theorem readyRun_some :
    (replay (step twoHosts) (initial twoHosts) (firstRound ++ answers ++ stopping)).isSome = true := by
  decide +kernel

/-- The state with both hosts READY. -/
def bothReady : System :=
  (replay (step twoHosts) (initial twoHosts) (firstRound ++ answers ++ stopping)).get readyRun_some

theorem heard_and_answered_bothReady : ((bothReady.processes ['a']).ready = true ∧
    ['b'] ∈ twoHosts.hostnames ∧ ['b'] ≠ ['a']) ∧
    (∃ n, bothReady.HasSent n ['b'] ['a'] .alive ∧ bothReady.HasReceived ['a'] n) ∧
      ∃ n a, bothReady.HasSent n ['a'] ['b'] .alive ∧ bothReady.HasReceived ['b'] n ∧
        bothReady.HasSent a ['b'] ['a'] (.ack n) ∧ bothReady.HasReceived ['a'] a := by
  have ready : (bothReady.processes ['a']).ready = true := by decide +kernel
  have host : ['b'] ∈ twoHosts.hostnames := by decide
  have other : ['b'] ≠ ['a'] := by decide
  exact ⟨⟨ready, host, other⟩, heard_and_answered_of_ready
    (Reach.of_isSome (allowedAlong_always _ _) readyRun_some) ready host other⟩

end System

end GroupComm.Lab0
