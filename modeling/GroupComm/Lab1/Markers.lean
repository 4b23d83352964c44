import GroupComm.Lab1.SnapshotService
import GroupComm.Library.Transition

/-!
# The marker protocol

Every process runs `SnapshotService::start`, which accepts one connection for each peer and gives
it a thread of its own, and one of them calls `takeSnapshot()`.  All threads of all processes take
their steps one at a time, in any order.

* A thread says where in the code it stands; `sender` is the peer whose marker it handles, and
  `none` for the thread that calls `takeSnapshot()`.
* A mutex is held by a thread that stands where the code holds it.  What a thread does while it
  holds `channelsToBeRecordedMutex` is one step, except for the markers, which are sent one by one.
* A marker is one connection with one message: `backlog` has the senders of those that a process
  has not accepted yet, and any of them may be the next.
* `log` has what has happened at a process.  No step reads it.
-/

namespace GroupComm.Lab1.Snapshot

open Transition

/-- The hosts, and the one that initiates the snapshot. -/
structure Deployment (Host : Type) where
  hostnames : List Host
  nodup : hostnames.Nodup
  initiator : Host
  known : initiator ∈ hostnames

/-- `getPeerContainerHostnames`. -/
def Deployment.allPeers {Host : Type} [DecidableEq Host] (D : Deployment Host) (p : Host) :
    List Host :=
  D.hostnames.filter fun peer => peer ≠ p

/-- Where a thread stands. -/
inductive ThreadState (Host : Type) where
  /-- Before `snapshotInitiatedMutex` is taken. -/
  | start
  | takeSnapshot (channelsToRecord : List Host)
  | sendMarkerMessageToPeers (rest : List Host)
  /-- Before the sender is taken out of `channelsToBeRecorded`. -/
  | stopRecording
  | done
  deriving DecidableEq

structure Thread (Host : Type) where
  sender : Option Host
  state : ThreadState Host
  deriving DecidableEq

namespace Thread

variable {Host : Type}

/-- Whether the thread is in `takeSnapshot(channelsToRecord)`. -/
def takesSnapshot (t : Thread Host) : Bool :=
  match t.state with
  | .takeSnapshot _ | .sendMarkerMessageToPeers _ => true
  | _ => false

/-- Whether the thread sends markers. -/
def sendsMarkers (t : Thread Host) : Bool :=
  match t.state with
  | .sendMarkerMessageToPeers _ => true
  | _ => false

end Thread

inductive Action (Host Text : Type) where
  /-- The local state has been captured, by the thread of that marker. -/
  | localStateRecorded (sender : Option Host)
  | recordIncomingMessages (sender : Host) (text : Text)
  | markerSent (peer : Host)
  | markerHandled (sender : Host)
  deriving DecidableEq

structure Process (Host Text State : Type) where
  service : SnapshotService Host Text State := {}
  threads : List (Thread Host) := []
  log : List (Action Host Text) := []

namespace Process

variable {Host Text State : Type} [DecidableEq Host]

/-- `snapshotInitiatedMutex` is held while the thread of a marker takes a snapshot. -/
def initiatedLocked (pr : Process Host Text State) : Bool :=
  pr.threads.any fun t => t.sender.isSome && t.takesSnapshot

/-- `channelsToBeRecordedMutex` is held while the markers are sent. -/
def channelsLocked (pr : Process Host Text State) : Bool :=
  pr.threads.any Thread.sendsMarkers

/-- The `k`-th thread goes on to a state. -/
def goOn (pr : Process Host Text State) (k : ℕ) (t : Thread Host) (state : ThreadState Host) :
    Process Host Text State :=
  { pr with threads := pr.threads.set k { t with state := state } }

def note (pr : Process Host Text State) (action : Action Host Text) : Process Host Text State :=
  { pr with log := pr.log ++ [action] }

/-- A thread takes a step, but for sending a marker; `localState` is what `localStateGetter`
returns when it is called. -/
def step (pr : Process Host Text State) (allPeers : List Host) (k : ℕ) (t : Thread Host)
    (localState : State) : Option (Process Host Text State) :=
  match t.state with
  | .start =>
      if pr.initiatedLocked then none
      else
        match t.sender with
        | none =>
            some ({ pr with service := { pr.service with snapshotInitiated := true } }.goOn k t
              (.takeSnapshot allPeers))
        | some sender =>
            if pr.service.snapshotInitiated then some (pr.goOn k t .stopRecording)
            else some (pr.goOn k t (.takeSnapshot (allPeers.filter fun peer => peer ≠ sender)))
  | .takeSnapshot channelsToRecord =>
      if pr.channelsLocked then none
      else
        some (({ pr with
          service := pr.service.takeSnapshot localState channelsToRecord }.note
            (.localStateRecorded t.sender)).goOn k t (.sendMarkerMessageToPeers allPeers))
  | .sendMarkerMessageToPeers (_ :: _) => none
  | .sendMarkerMessageToPeers [] =>
      match t.sender with
      | none => some (pr.goOn k t .done)
      | some _ =>
          some ({ pr with service := { pr.service with snapshotInitiated := true } }.goOn k t
            .stopRecording)
  | .stopRecording =>
      if pr.channelsLocked then none
      else
        match t.sender with
        | none => none
        | some sender =>
            some (({ pr with service := pr.service.stopRecording sender }.note
              (.markerHandled sender)).goOn k t .done)
  | .done => none

end Process

structure System (Host Text State : Type) where
  processes : Host → Process Host Text State
  backlog : Host → List Host := fun _ => []

inductive Event (Host Text State : Type) where
  /-- `start` accepts the `i`-th connection that waits at `p`. -/
  | accept (p : Host) (i : ℕ)
  | threadStep (p : Host) (k : ℕ) (localState : State)
  | sendMarker (p : Host) (k : ℕ)
  | recordIncomingMessages (p sender : Host) (text : Text)

namespace System

variable {Host Text State : Type} [DecidableEq Host]

def initial (D : Deployment Host) : System Host Text State where
  processes p := { threads := if p = D.initiator then [⟨none, .start⟩] else [] }

def setProcess (s : System Host Text State) (p : Host) (pr : Process Host Text State) :
    System Host Text State :=
  { s with processes := Function.update s.processes p pr }

def setBacklog (s : System Host Text State) (p : Host) (senders : List Host) :
    System Host Text State :=
  { s with backlog := Function.update s.backlog p senders }

def step (D : Deployment Host) (s : System Host Text State) :
    Event Host Text State → Option (System Host Text State)
  | .accept p i =>
      match (s.backlog p)[i]? with
      | some sender =>
          if ((s.processes p).threads.filter fun t => t.sender.isSome).length <
              (D.allPeers p).length then
            some ((s.setBacklog p ((s.backlog p).eraseIdx i)).setProcess p
              { s.processes p with
                threads := (s.processes p).threads ++ [⟨some sender, .start⟩] })
          else none
      | none => none
  | .threadStep p k localState =>
      match (s.processes p).threads[k]? with
      | some t => ((s.processes p).step (D.allPeers p) k t localState).map (s.setProcess p)
      | none => none
  | .sendMarker p k =>
      match (s.processes p).threads[k]? with
      | some ⟨sender, .sendMarkerMessageToPeers (peer :: rest)⟩ =>
          some ((s.setBacklog peer (s.backlog peer ++ [p])).setProcess p
            (((s.processes p).note (.markerSent peer)).goOn k
              ⟨sender, .sendMarkerMessageToPeers (peer :: rest)⟩
              (.sendMarkerMessageToPeers rest)))
      | _ => none
  | .recordIncomingMessages p sender text =>
      if (s.processes p).channelsLocked then none
      else
        ((s.processes p).service.recordIncomingMessages sender text).map fun service =>
          s.setProcess p
            ({ s.processes p with service := service }.note
              (.recordIncomingMessages sender text))

/-! ## What a step can do -/

/-- The steps of a thread, one for each place in the code, and those of the environment. -/
inductive StepCases (D : Deployment Host) (s : System Host Text State) :
    System Host Text State → Prop
  | accept {p i sender} (waiting : (s.backlog p)[i]? = some sender) :
    StepCases D s ((s.setBacklog p ((s.backlog p).eraseIdx i)).setProcess p
      { s.processes p with threads := (s.processes p).threads ++ [⟨some sender, .start⟩] })
  /-- `takeSnapshot()` sets the flag. -/
  | initiate {p k} (found : (s.processes p).threads[k]? = some ⟨none, .start⟩)
      (unlocked : (s.processes p).initiatedLocked = false) :
    StepCases D s (s.setProcess p
      ({ s.processes p with
        service := { (s.processes p).service with snapshotInitiated := true } }.goOn k
          ⟨none, .start⟩ (.takeSnapshot (D.allPeers p))))
  | firstMarker {p k sender} (found : (s.processes p).threads[k]? = some ⟨some sender, .start⟩)
      (unlocked : (s.processes p).initiatedLocked = false)
      (first : (s.processes p).service.snapshotInitiated = false) :
    StepCases D s (s.setProcess p ((s.processes p).goOn k ⟨some sender, .start⟩
      (.takeSnapshot ((D.allPeers p).filter fun peer => peer ≠ sender))))
  | laterMarker {p k sender} (found : (s.processes p).threads[k]? = some ⟨some sender, .start⟩)
      (later : (s.processes p).service.snapshotInitiated = true) :
    StepCases D s (s.setProcess p ((s.processes p).goOn k ⟨some sender, .start⟩ .stopRecording))
  | capture {p k localState sender channels}
      (found : (s.processes p).threads[k]? = some ⟨sender, .takeSnapshot channels⟩) :
    StepCases D s (s.setProcess p
      (({ s.processes p with
        service := (s.processes p).service.takeSnapshot localState channels }.note
          (.localStateRecorded sender)).goOn k ⟨sender, .takeSnapshot channels⟩
            (.sendMarkerMessageToPeers (D.allPeers p))))
  | sendMarker {p k sender peer rest} (found : (s.processes p).threads[k]? =
      some ⟨sender, .sendMarkerMessageToPeers (peer :: rest)⟩) :
    StepCases D s ((s.setBacklog peer (s.backlog peer ++ [p])).setProcess p
      (((s.processes p).note (.markerSent peer)).goOn k
        ⟨sender, .sendMarkerMessageToPeers (peer :: rest)⟩ (.sendMarkerMessageToPeers rest)))
  | returned {p k} (found : (s.processes p).threads[k]? =
      some ⟨none, .sendMarkerMessageToPeers []⟩) :
    StepCases D s (s.setProcess p ((s.processes p).goOn k
      ⟨none, .sendMarkerMessageToPeers []⟩ .done))
  | returnedToMarker {p k sender} (found : (s.processes p).threads[k]? =
      some ⟨some sender, .sendMarkerMessageToPeers []⟩) :
    StepCases D s (s.setProcess p
      ({ s.processes p with
        service := { (s.processes p).service with snapshotInitiated := true } }.goOn k
          ⟨some sender, .sendMarkerMessageToPeers []⟩ .stopRecording))
  | handle {p k sender}
      (found : (s.processes p).threads[k]? = some ⟨some sender, .stopRecording⟩)
      (unlocked : (s.processes p).channelsLocked = false) :
    StepCases D s (s.setProcess p
      (({ s.processes p with service := (s.processes p).service.stopRecording sender }.note
        (.markerHandled sender)).goOn k ⟨some sender, .stopRecording⟩ .done))
  | record {p sender text service} (unlocked : (s.processes p).channelsLocked = false)
      (recorded : (s.processes p).service.recordIncomingMessages sender text = some service) :
    StepCases D s (s.setProcess p
      ({ s.processes p with service := service }.note (.recordIncomingMessages sender text)))

variable {D : Deployment Host} {s s' : System Host Text State}

theorem stepCases_threadStep {p : Host} {k : ℕ} {t : Thread Host} {localState : State}
    {pr : Process Host Text State} (found : (s.processes p).threads[k]? = some t)
    (stepped : (s.processes p).step (D.allPeers p) k t localState = some pr) :
    StepCases D s (s.setProcess p pr) := by
  obtain ⟨sender, state⟩ := t
  unfold Process.step at stepped
  dsimp only at stepped
  split at stepped
  · split at stepped
    · cases stepped
    · rename_i locked
      have unlocked := Bool.eq_false_of_not_eq_true locked
      split at stepped
      · cases stepped
        exact .initiate found unlocked
      · split at stepped
        · rename_i later
          cases stepped
          exact .laterMarker found later
        · rename_i first
          cases stepped
          exact .firstMarker found unlocked (Bool.eq_false_of_not_eq_true first)
  · split at stepped
    · cases stepped
    · cases stepped
      exact .capture found
  · cases stepped
  · split at stepped
    · cases stepped
      exact .returned found
    · cases stepped
      exact .returnedToMarker found
  · split at stepped
    · cases stepped
    · rename_i locked
      split at stepped
      · cases stepped
      · cases stepped
        exact .handle found (Bool.eq_false_of_not_eq_true locked)
  · cases stepped

theorem stepCases_of_step {e : Event Host Text State} (taken : s.step D e = some s') :
    StepCases D s s' := by
  unfold step at taken
  cases e with
  | accept p i =>
      dsimp only at taken
      split at taken
      · rename_i waiting
        split at taken
        · cases taken
          exact .accept waiting
        · cases taken
      · cases taken
  | threadStep p k localState =>
      dsimp only at taken
      split at taken
      · rename_i found
        obtain ⟨pr, stepped, same⟩ := Option.map_eq_some_iff.mp taken
        rw [← same]
        exact stepCases_threadStep found stepped
      · cases taken
  | sendMarker p k =>
      dsimp only at taken
      split at taken
      · rename_i found
        cases taken
        exact .sendMarker found
      · cases taken
  | recordIncomingMessages p sender text =>
      dsimp only at taken
      split at taken
      · cases taken
      · rename_i locked
        obtain ⟨service, recorded, same⟩ := Option.map_eq_some_iff.mp taken
        rw [← same]
        exact .record (Bool.eq_false_of_not_eq_true locked) recorded

end System

end GroupComm.Lab1.Snapshot
