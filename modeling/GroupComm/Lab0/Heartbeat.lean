import Mathlib.Data.Finset.Basic
import Mathlib.Data.List.TakeWhile
import GroupComm.Library.Transition

/-!
# The heartbeat barrier

Every host runs two threads: one listens for messages (`HeartbeatReceiver`), the other sends
"I am alive" to all peers until each of them has answered (`HeartbeatSender`).  Both take their
steps one at a time, in any order, over a network that loses, delays, reorders and duplicates
datagrams.

* The state of a thread says where in the code it stands; the steps between two statements that
  touch what the threads share are left out, and so are the pauses.
* The alive thread holds `aliveMessageMutex` for a whole round of messages.
* When its loop has ended, the alive thread closes the senders, which the listener keeps using:
  what is sent over a closed one gets lost at once.
* `sent` has every datagram that has reached the network.  An `Ack` carries the number of the
  datagram it answers, and `received` what the listeners have taken from the network; neither is
  read by a step.
-/

namespace GroupComm.Lab0

open Transition

abbrev Hostname := List Char

/-- `sender.substr(0, sender.find('.'))`. -/
def shortName (sender : List Char) : Hostname :=
  sender.takeWhile fun c => c ≠ '.'

/-- The hosts, as `readHostFile` returns them: without repetitions.  A socket is known as
`<hostname>.<network-name>`. -/
structure Hostfile where
  hostnames : List Hostname
  nodup : hostnames.Nodup
  networkName : List Char

namespace Hostfile

/-- What a listener takes for the host that a datagram of host `h` comes from. -/
def senderName (F : Hostfile) (h : Hostname) : Hostname :=
  shortName (h ++ '.' :: F.networkName)

/-- `getPeerContainerHostnames`. -/
def peerHostnames (F : Hostfile) (h : Hostname) : List Hostname :=
  F.hostnames.filter fun peer => peer ≠ h

theorem mem_peerHostnames {F : Hostfile} {p q : Hostname} :
    q ∈ F.peerHostnames p ↔ q ∈ F.hostnames ∧ q ≠ p := by
  simp [peerHostnames]

/-- A name without a dot is what a listener takes it for. -/
theorem senderName_eq {F : Hostfile} {h : Hostname} (dotless : '.' ∉ h) :
    F.senderName h = h := by
  rw [senderName, shortName, List.takeWhile_append_of_pos, List.takeWhile_cons]
  · simp
  · intro c mem
    refine decide_eq_true fun same => dotless ?_
    rwa [same] at mem

theorem dotless_senderName (F : Hostfile) (h : Hostname) : '.' ∉ F.senderName h := by
  intro mem
  rw [senderName, shortName] at mem
  have kept := List.mem_takeWhile_imp mem
  simp at kept

end Hostfile

inductive Message where
  | alive
  /-- The answer to the datagram with that number. -/
  | ack (answers : ℕ)
  deriving DecidableEq

structure Datagram where
  src : Hostname
  dst : Hostname
  message : Message
  deriving DecidableEq

/-- Where the receive thread stands. -/
inductive ReceiveState where
  | bind
  /-- Before `heartbeatReceiverReady` is set. -/
  | signal
  /-- Before the test of the loop in `startListeningForMessages`. -/
  | test
  | receiveMessage
  | sendingAckMessages (sender : Hostname) (answers : ℕ)
  | removeFromAliveMessageReceiverList (sender : Hostname)
  | left
  deriving DecidableEq

/-- Where the alive thread stands. -/
inductive AliveState where
  | addToAliveMessageReceiverList (rest : List Hostname)
  /-- Before `heartbeatReceiverReady` has been seen. -/
  | wait
  /-- Before the test of the loop in `startSendingAliveMessages`. -/
  | test
  | sendMessage (rest : Finset Hostname)
  | closeConnection (rest : Finset Hostname)
  | done
  deriving DecidableEq

structure Process where
  receive : ReceiveState := .bind
  alive : AliveState
  heartbeatReceiverReady : Bool := false
  validSenders : Finset Hostname := ∅
  aliveMessageReceivers : Finset Hostname := ∅
  stopAliveMessageLoop : Bool := false
  udpSenders : Finset Hostname := ∅
  /-- The senders whose connection is closed. -/
  closed : Finset Hostname := ∅
  crashed : Bool := false
  /-- Whether "READY" has been logged. -/
  ready : Bool := false

namespace Process

/-- Whether the alive thread holds `aliveMessageMutex`. -/
def locked (pr : Process) : Bool :=
  match pr.alive with
  | .sendMessage _ => true
  | _ => false

/-- `getUDPSender`; whether a sender that is not there yet can be created is up to the host. -/
def getUDPSender (pr : Process) (h : Hostname) (resolved : Bool) : Option Process :=
  if h ∈ pr.udpSenders then some pr
  else if resolved then some { pr with udpSenders := insert h pr.udpSenders }
  else none

/-- A step of the receive thread that neither takes nor sends a message. -/
def receiveStep (pr : Process) (peerHostnames : List Hostname) : Option Process :=
  match pr.receive with
  | .bind => some { pr with validSenders := peerHostnames.toFinset, receive := .signal }
  | .signal => some { pr with heartbeatReceiverReady := true, receive := .test }
  | .test =>
      if pr.validSenders ≠ ∅ then some { pr with receive := .receiveMessage }
      else if pr.locked then none
      else if pr.aliveMessageReceivers ≠ ∅ then some { pr with receive := .receiveMessage }
      else some { pr with receive := .left }
  | .removeFromAliveMessageReceiverList sender =>
      if pr.locked then none
      else
        let aliveMessageReceivers := pr.aliveMessageReceivers.erase sender
        some
          { pr with
            aliveMessageReceivers := aliveMessageReceivers
            stopAliveMessageLoop :=
              pr.stopAliveMessageLoop || decide (aliveMessageReceivers = ∅)
            receive := .test }
  | _ => none

/-- A step of the alive thread that sends and closes nothing. -/
def aliveStep (pr : Process) : Option Process :=
  match pr.alive with
  | .addToAliveMessageReceiverList (h :: rest) =>
      some
        { pr with
          aliveMessageReceivers := insert h pr.aliveMessageReceivers
          alive := .addToAliveMessageReceiverList rest }
  | .addToAliveMessageReceiverList [] => some { pr with alive := .wait }
  | .wait => if pr.heartbeatReceiverReady then some { pr with alive := .test } else none
  | .test =>
      if pr.stopAliveMessageLoop then some { pr with alive := .closeConnection pr.udpSenders }
      else some { pr with alive := .sendMessage pr.aliveMessageReceivers }
  | .sendMessage rest => if rest = ∅ then some { pr with alive := .test } else none
  | .closeConnection rest => if rest = ∅ then some { pr with alive := .done } else none
  | .done => none

/-- The receive thread with the message of a datagram. -/
def take (pr : Process) (sender : Hostname) (number : ℕ) : Message → Process
  | .alive => { pr with receive := .sendingAckMessages sender number }
  | .ack _ => { pr with receive := .removeFromAliveMessageReceiverList sender }

end Process

structure System where
  processes : Hostname → Process
  sent : List Datagram := []
  /-- The numbers of the datagrams in flight. -/
  inFlight : List ℕ := []
  received : List (Hostname × ℕ) := []

inductive Event where
  /-- The receive thread of `p` goes on without a message. -/
  | receive (p : Hostname)
  /-- It takes the `i`-th datagram in flight, of which a copy may stay there. -/
  | receiveMessage (p : Hostname) (i : ℕ) (copy : Bool)
  | sendingAckMessages (p : Hostname) (resolved : Bool)
  /-- The alive thread of `p` goes on without sending or closing. -/
  | alive (p : Hostname)
  | sendMessage (p q : Hostname) (resolved : Bool)
  | closeConnection (p q : Hostname)
  /-- Both threads have been joined. -/
  | ready (p : Hostname)
  | lose (i : ℕ)

namespace System

def initial (F : Hostfile) : System where
  processes p := { alive := .addToAliveMessageReceiverList (F.peerHostnames p) }

def setProcess (s : System) (p : Hostname) (pr : Process) : System :=
  { s with processes := Function.update s.processes p pr }

/-- `UDPSender::sendMessage`, over a sender that may be closed. -/
def post (s : System) (closed : Bool) (datagram : Datagram) : System :=
  if closed then s
  else { s with sent := s.sent ++ [datagram], inFlight := s.inFlight ++ [s.sent.length] }

def running (F : Hostfile) (s : System) (p : Hostname) : Prop :=
  p ∈ F.hostnames ∧ (s.processes p).crashed = false

instance (F : Hostfile) (s : System) (p : Hostname) : Decidable (s.running F p) :=
  inferInstanceAs (Decidable (_ ∧ _))

/-- The listener of `p` takes a datagram. -/
def deliver (F : Hostfile) (s : System) (p : Hostname) (number : ℕ) (datagram : Datagram) :
    System :=
  { s with received := s.received ++ [(p, number)] }.setProcess p
    ((s.processes p).take (F.senderName datagram.src) number datagram.message)

def step (F : Hostfile) (s : System) : Event → Option System
  | .receive p =>
      if s.running F p then
        ((s.processes p).receiveStep (F.peerHostnames p)).map (s.setProcess p)
      else none
  | .receiveMessage p i copy =>
      if s.running F p ∧ (s.processes p).receive = .receiveMessage then
        match s.inFlight[i]? with
        | some number =>
            match s.sent[number]? with
            | some datagram =>
                if datagram.dst = p then
                  some (({ s with
                    inFlight := if copy then s.inFlight else s.inFlight.eraseIdx i }).deliver F p
                      number datagram)
                else none
            | none => none
        | none => none
      else none
  | .sendingAckMessages p resolved =>
      if s.running F p then
        match (s.processes p).receive with
        | .sendingAckMessages sender answers =>
            match (s.processes p).getUDPSender sender resolved with
            | some pr =>
                some ((s.post (decide (sender ∈ pr.closed)) ⟨p, sender, .ack answers⟩).setProcess p
                  { pr with validSenders := pr.validSenders.erase sender, receive := .test })
            -- `getUDPSender` returns `nullptr`
            | none => some (s.setProcess p { s.processes p with crashed := true })
        | _ => none
      else none
  | .alive p =>
      if s.running F p then (s.processes p).aliveStep.map (s.setProcess p) else none
  | .sendMessage p q resolved =>
      if s.running F p then
        match (s.processes p).alive with
        | .sendMessage rest =>
            if q ∈ rest then
              match (s.processes p).getUDPSender q resolved with
              | some pr =>
                  some ((s.post (decide (q ∈ pr.closed)) ⟨p, q, .alive⟩).setProcess p
                    { pr with alive := .sendMessage (rest.erase q) })
              | none =>
                  some (s.setProcess p { s.processes p with alive := .sendMessage (rest.erase q) })
            else none
        | _ => none
      else none
  | .closeConnection p q =>
      if s.running F p then
        match (s.processes p).alive with
        | .closeConnection rest =>
            if q ∈ rest then
              some (s.setProcess p
                { s.processes p with
                  closed := insert q (s.processes p).closed
                  alive := .closeConnection (rest.erase q) })
            else none
        | _ => none
      else none
  | .ready p =>
      if s.running F p ∧ (s.processes p).receive = .left ∧ (s.processes p).alive = .done then
        some (s.setProcess p { s.processes p with ready := true })
      else none
  | .lose i =>
      match s.inFlight[i]? with
      | some _ => some { s with inFlight := s.inFlight.eraseIdx i }
      | none => none

/-! ## What a step can do -/

/-- The steps of the two threads of `p`, one for each place in the code, and the loss of a
datagram. -/
inductive StepCases (F : Hostfile) (s : System) : Event → System → Prop
  | bind {p} (running : s.running F p) (place : (s.processes p).receive = .bind) :
    StepCases F s (.receive p) (s.setProcess p
      { s.processes p with
        validSenders := (F.peerHostnames p).toFinset
        receive := .signal })
  | signal {p} (running : s.running F p) (place : (s.processes p).receive = .signal) :
    StepCases F s (.receive p) (s.setProcess p
      { s.processes p with heartbeatReceiverReady := true, receive := .test })
  | listen {p} (running : s.running F p) (place : (s.processes p).receive = .test) :
    StepCases F s (.receive p) (s.setProcess p
      { s.processes p with receive := .receiveMessage })
  | leave {p} (running : s.running F p) (place : (s.processes p).receive = .test)
      (heard : (s.processes p).validSenders = ∅)
      (answered : (s.processes p).aliveMessageReceivers = ∅) :
    StepCases F s (.receive p) (s.setProcess p { s.processes p with receive := .left })
  | remove {p sender} (running : s.running F p)
      (place : (s.processes p).receive = .removeFromAliveMessageReceiverList sender) :
    StepCases F s (.receive p) (s.setProcess p
      { s.processes p with
        aliveMessageReceivers := (s.processes p).aliveMessageReceivers.erase sender
        stopAliveMessageLoop := (s.processes p).stopAliveMessageLoop ||
          decide ((s.processes p).aliveMessageReceivers.erase sender = ∅)
        receive := .test })
  | take {p i copy number datagram} (running : s.running F p)
      (place : (s.processes p).receive = .receiveMessage) (found : s.inFlight[i]? = some number)
      (content : s.sent[number]? = some datagram) (addressed : datagram.dst = p) :
    StepCases F s (.receiveMessage p i copy)
      ({ s with
        inFlight := if copy then s.inFlight else s.inFlight.eraseIdx i }.deliver F p number datagram)
  | answer {p resolved sender answers pr} (running : s.running F p)
      (place : (s.processes p).receive = .sendingAckMessages sender answers)
      (udpSender : (s.processes p).getUDPSender sender resolved = some pr) :
    StepCases F s (.sendingAckMessages p resolved)
      ((s.post (decide (sender ∈ pr.closed)) ⟨p, sender, .ack answers⟩).setProcess p
        { pr with validSenders := pr.validSenders.erase sender, receive := .test })
  | crash {p resolved} (running : s.running F p) :
    StepCases F s (.sendingAckMessages p resolved)
      (s.setProcess p { s.processes p with crashed := true })
  | add {p h rest} (running : s.running F p)
      (place : (s.processes p).alive = .addToAliveMessageReceiverList (h :: rest)) :
    StepCases F s (.alive p) (s.setProcess p
      { s.processes p with
        aliveMessageReceivers := insert h (s.processes p).aliveMessageReceivers
        alive := .addToAliveMessageReceiverList rest })
  | added {p} (running : s.running F p)
      (place : (s.processes p).alive = .addToAliveMessageReceiverList []) :
    StepCases F s (.alive p) (s.setProcess p { s.processes p with alive := .wait })
  | start {p} (running : s.running F p) (place : (s.processes p).alive = .wait) :
    StepCases F s (.alive p) (s.setProcess p { s.processes p with alive := .test })
  | stop {p} (running : s.running F p) (place : (s.processes p).alive = .test)
      (stopped : (s.processes p).stopAliveMessageLoop = true) :
    StepCases F s (.alive p) (s.setProcess p
      { s.processes p with alive := .closeConnection (s.processes p).udpSenders })
  | round {p} (running : s.running F p) (place : (s.processes p).alive = .test) :
    StepCases F s (.alive p) (s.setProcess p
      { s.processes p with alive := .sendMessage (s.processes p).aliveMessageReceivers })
  | sent {p q resolved rest pr} (running : s.running F p)
      (place : (s.processes p).alive = .sendMessage rest) (mem : q ∈ rest)
      (udpSender : (s.processes p).getUDPSender q resolved = some pr) :
    StepCases F s (.sendMessage p q resolved)
      ((s.post (decide (q ∈ pr.closed)) ⟨p, q, .alive⟩).setProcess p
        { pr with alive := .sendMessage (rest.erase q) })
  | unsent {p q resolved rest} (running : s.running F p)
      (place : (s.processes p).alive = .sendMessage rest) :
    StepCases F s (.sendMessage p q resolved) (s.setProcess p
      { s.processes p with alive := .sendMessage (rest.erase q) })
  | roundDone {p rest} (running : s.running F p)
      (place : (s.processes p).alive = .sendMessage rest) :
    StepCases F s (.alive p) (s.setProcess p { s.processes p with alive := .test })
  | close {p q rest} (running : s.running F p)
      (place : (s.processes p).alive = .closeConnection rest) :
    StepCases F s (.closeConnection p q) (s.setProcess p
      { s.processes p with
        closed := insert q (s.processes p).closed
        alive := .closeConnection (rest.erase q) })
  | closed {p rest} (running : s.running F p)
      (place : (s.processes p).alive = .closeConnection rest) :
    StepCases F s (.alive p) (s.setProcess p { s.processes p with alive := .done })
  | ready {p} (running : s.running F p) (left : (s.processes p).receive = .left)
      (done : (s.processes p).alive = .done) :
    StepCases F s (.ready p) (s.setProcess p { s.processes p with ready := true })
  | lose {i} : StepCases F s (.lose i) { s with inFlight := s.inFlight.eraseIdx i }

variable {F : Hostfile} {s s' : System}

theorem stepCases_receive {p : Hostname} (running : s.running F p) {pr : Process}
    (stepped : (s.processes p).receiveStep (F.peerHostnames p) = some pr) :
    StepCases F s (.receive p) (s.setProcess p pr) := by
  unfold Process.receiveStep at stepped
  split at stepped
  · rename_i place
    cases stepped
    exact .bind running place
  · rename_i place
    cases stepped
    exact .signal running place
  · rename_i place
    split at stepped
    · cases stepped
      exact .listen running place
    · rename_i heard
      split at stepped
      · cases stepped
      · split at stepped
        · cases stepped
          exact .listen running place
        · rename_i answered
          cases stepped
          exact .leave running place (not_not.mp heard) (not_not.mp answered)
  · rename_i place
    split at stepped
    · cases stepped
    · cases stepped
      exact .remove running place
  · cases stepped

theorem stepCases_alive {p : Hostname} (running : s.running F p) {pr : Process}
    (stepped : (s.processes p).aliveStep = some pr) :
    StepCases F s (.alive p) (s.setProcess p pr) := by
  unfold Process.aliveStep at stepped
  split at stepped
  · rename_i place
    cases stepped
    exact .add running place
  · rename_i place
    cases stepped
    exact .added running place
  · rename_i place
    split at stepped
    · cases stepped
      exact .start running place
    · cases stepped
  · rename_i place
    split at stepped
    · rename_i stopped
      cases stepped
      exact .stop running place stopped
    · cases stepped
      exact .round running place
  · rename_i place
    split at stepped
    · cases stepped
      exact .roundDone running place
    · cases stepped
  · rename_i place
    split at stepped
    · cases stepped
      exact .closed running place
    · cases stepped
  · cases stepped

theorem stepCases_of_step {e : Event} (taken : s.step F e = some s') : StepCases F s e s' := by
  cases e with
  | receive p =>
      unfold step at taken
      dsimp only at taken
      split at taken
      · rename_i running
        obtain ⟨pr, stepped, rfl⟩ := Option.map_eq_some_iff.mp taken
        exact stepCases_receive running stepped
      · cases taken
  | receiveMessage p i copy =>
      unfold step at taken
      dsimp only at taken
      split at taken
      · rename_i guard
        split at taken
        · rename_i found
          split at taken
          · rename_i content
            split at taken
            · rename_i addressed
              cases taken
              exact .take guard.1 guard.2 found content addressed
            · cases taken
          · cases taken
        · cases taken
      · cases taken
  | sendingAckMessages p resolved =>
      unfold step at taken
      dsimp only at taken
      split at taken
      · rename_i running
        split at taken
        · rename_i place
          split at taken
          · rename_i udpSender
            cases taken
            exact .answer running place udpSender
          · cases taken
            exact .crash running
        · cases taken
      · cases taken
  | alive p =>
      unfold step at taken
      dsimp only at taken
      split at taken
      · rename_i running
        obtain ⟨pr, stepped, rfl⟩ := Option.map_eq_some_iff.mp taken
        exact stepCases_alive running stepped
      · cases taken
  | sendMessage p q resolved =>
      unfold step at taken
      dsimp only at taken
      split at taken
      · rename_i running
        split at taken
        · rename_i place
          split at taken
          · rename_i mem
            split at taken
            · rename_i udpSender
              cases taken
              exact .sent running place mem udpSender
            · cases taken
              exact .unsent running place
          · cases taken
        · cases taken
      · cases taken
  | closeConnection p q =>
      unfold step at taken
      dsimp only at taken
      split at taken
      · rename_i running
        split at taken
        · rename_i place
          split at taken
          · cases taken
            exact .close running place
          · cases taken
        · cases taken
      · cases taken
  | ready p =>
      unfold step at taken
      dsimp only at taken
      split at taken
      · rename_i guard
        cases taken
        exact .ready guard.1 guard.2.1 guard.2.2
      · cases taken
  | lose i =>
      unfold step at taken
      dsimp only at taken
      split at taken
      · cases taken
        exact .lose
      · cases taken

/-- `getUDPSender` only adds a sender. -/
theorem getUDPSender_eq {pr pr' : Process} {h : Hostname} {resolved : Bool}
    (found : pr.getUDPSender h resolved = some pr') :
    ∃ udpSenders, pr' = { pr with udpSenders := udpSenders } := by
  unfold Process.getUDPSender at found
  split at found
  · cases found
    exact ⟨pr.udpSenders, rfl⟩
  · split at found
    · cases found
      exact ⟨_, rfl⟩
    · cases found

/-! ## What has been sent and received -/

/-- The datagram with that number has reached the network. -/
def HasSent (s : System) (number : ℕ) (src dst : Hostname) (message : Message) : Prop :=
  s.sent[number]? = some ⟨src, dst, message⟩

/-- The listener of `p` has taken the datagram with that number. -/
def HasReceived (s : System) (p : Hostname) (number : ℕ) : Prop :=
  (p, number) ∈ s.received

instance (s : System) (number : ℕ) (src dst : Hostname) (message : Message) :
    Decidable (s.HasSent number src dst message) :=
  inferInstanceAs (Decidable (_ = _))

instance (s : System) (p : Hostname) (number : ℕ) : Decidable (s.HasReceived p number) :=
  inferInstanceAs (Decidable (_ ∈ _))

end System

end GroupComm.Lab0
