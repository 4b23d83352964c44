import GroupComm.Lab2.Process
import GroupComm.Library.Transition

/-!
# The whole system

All processes that have been started on the hosts of the hostfile, and the connections
between them.  A connection delivers what is sent in order, to each end by its `inbox`; the
end of the other process is seen once the inbox is empty.  A host that is started again is a
new process.

* `connect` reaches the process that listens on that host, if there is one, and waits in its
  backlog; closing a `TcpServer` resets what has not been accepted.
* A send fails only when the other end is gone, and need not even then.
* A heartbeat can arrive from any host at any time.
-/

namespace GroupComm.Lab2

/-- A process among all that are ever started. -/
abbrev ProcId := ℕ

structure World where
  processes : ProcId → Process := fun _ => { me := 0 }
  started : ℕ := 0
  inbox : Socket → List Msg := fun _ => []
  owner : Socket → ProcId := fun _ => 0
  /-- The sockets that `TcpServer::close` has reset. -/
  reset : Socket → Bool := fun _ => false
  /-- Connections not yet accepted. -/
  backlog : ProcId → List Socket := fun _ => []
  opened : ℕ := 0
  /-- The views made so far, in the order in which they were made. -/
  views : List Creation := []

inductive Event where
  | start (p : PeerId)
  | crash (i : ProcId)
  | heartBeat (i : ProcId) (p : PeerId)
  | tick (i : ProcId) (order : List PeerId)
  | run (i : ProcId) (t : Thread)
  /-- A send fails. -/
  | fail (i : ProcId) (t : Thread)

namespace World

def setProcess (s : World) (i : ProcId) (pr : Process) : World :=
  { s with processes := Function.update s.processes i pr }

/-- Whether the process at a socket is gone. -/
def ended (s : World) (k : Socket) : Bool :=
  s.reset k || !(s.processes (s.owner k)).running

/-- Whether a process has its `TcpServer` open on host `p`. -/
def listens (s : World) (p : PeerId) (j : ProcId) : Bool :=
  decide ((s.processes j).me = p) && (s.processes j).main.listening

def listener (s : World) (p : PeerId) : Option ProcId :=
  (List.range s.started).find? (s.listens p)

/-- Whether a process runs on host `p`. -/
def isUp (s : World) (p : PeerId) : Bool :=
  (List.range s.started).any fun i => decide ((s.processes i).me = p) && (s.processes i).running

/-- The socket that the next `connect` returns. -/
def nextSocket (s : World) : Socket :=
  ⟨s.opened, true⟩

/-- A connection from process `i` in the backlog of process `j`. -/
def openConnection (s : World) (i j : ProcId) : World :=
  let client := s.nextSocket
  { s with
    inbox := Function.update (Function.update s.inbox client []) client.peer []
    owner := Function.update (Function.update s.owner client i) client.peer j
    reset := Function.update (Function.update s.reset client false) client.peer false
    backlog := Function.update s.backlog j (s.backlog j ++ [client.peer])
    opened := s.opened + 1 }

def deliver (s : World) (client : Socket) (m : Msg) : World :=
  { s with inbox := Function.update s.inbox client (s.inbox client ++ [m]) }

/-- `accept` takes the first connection of the backlog, of which `rest` is left. -/
def acceptConnection (s : World) (i : ProcId) (close : Bool) (rest : List Socket) : World :=
  { s with
    backlog := Function.update s.backlog i (if close then [] else rest)
    reset := fun k => s.reset k || (close && decide (k ∈ rest)) }

/-- What the network makes of the next step of a thread of process `i`. -/
def perform (s : World) (i : ProcId) : Effect → Option World
  | .silent next created =>
      some { s.setProcess i next with views := s.views ++ created }
  | .send client m sent _ => some ((s.deliver client.peer m).setProcess i sent)
  | .receive client received lost =>
      match s.inbox client with
      | m :: rest =>
          some ({ s with inbox := Function.update s.inbox client rest }.setProcess i (received m))
      | [] => if s.ended client.peer then some (s.setProcess i lost) else none
  | .connect peer connected refused =>
      match s.listener peer with
      | some j => some ((s.openConnection i j).setProcess i (connected s.nextSocket))
      | none => some (s.setProcess i refused)
  | .accept close accepted =>
      match s.backlog i with
      | client :: rest =>
          some ((s.acceptConnection i close rest).setProcess i
            (accepted client (s.processes (s.owner client.peer)).me))
      | [] => none
  | .blocked => none

/-- A send that fails. -/
def performFailure (s : World) (i : ProcId) : Effect → Option World
  | .send client _ _ failed =>
      if s.ended client.peer then some (s.setProcess i failed) else none
  | _ => none

/-- The failure detector of a process is not inside a callback. -/
def detecting (s : World) (i : ProcId) : Bool :=
  (s.processes i).running && decide ((s.processes i).detector = none)

def step (hosts : List PeerId) (s : World) : Event → Option World
  | .start p =>
      if p ∈ hosts ∧ s.isUp p = false then
        some { s.setProcess s.started { me := p, main := .findLeader hosts } with
          started := s.started + 1 }
      else none
  | .crash i =>
      if (s.processes i).running then some (s.setProcess i (s.processes i).terminate) else none
  | .heartBeat i p =>
      if s.detecting i ∧ p ∈ hosts ∧ p ≠ (s.processes i).me then
        some (s.setProcess i ((s.processes i).heartBeat p))
      else none
  | .tick i order =>
      if s.detecting i ∧ order.Perm (s.processes i).heartBeats.peers.toList then
        some (s.setProcess i ((s.processes i).tick order))
      else none
  | .run i t =>
      if (s.processes i).running then s.perform i ((s.processes i).effect t) else none
  | .fail i t =>
      if (s.processes i).running then s.performFailure i ((s.processes i).effect t) else none

/-- `n` steps of the main thread of process `i`. -/
def mainSteps (i : ProcId) (n : ℕ) : List Event :=
  List.replicate n (.run i .main)

end World

end GroupComm.Lab2
