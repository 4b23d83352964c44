import GroupComm.Lab1.SnapshotService
import GroupComm.Library.Log
import GroupComm.Library.Transition

/-!
# Messages at the cut

The listener of the multicast service hands a datagram to `recordIncomingMessages` first and to
its handler afterwards.  The snapshot is taken by another thread, which shares a mutex with the
first of these steps but not with the second, so it can come between them: then the datagram is
neither part of the captured state nor recorded.

* `AccountedFor`: every datagram of a channel that is recorded, received before the marker of its
  sender is handled, has either been dealt with before the capture or been recorded.
* `accounted_iff`: this holds throughout a run exactly when the state is not captured between the
  two steps for such a datagram, and no marker is handled between its reception and the first.

A datagram comes with its number among those that have been received; the number is never read.
-/

namespace GroupComm.Lab1.Cut

open Transition

structure Datagram (Host Text : Type) where
  number : ℕ
  sender : Host
  text : Text
  deriving DecidableEq

/-- Where `startListeningForMessages` stands. -/
inductive ListenerState (Host Text : Type) where
  | receive
  | incomingMessageCb (datagram : Datagram Host Text)
  /-- Before `dropMessage`. -/
  | dropMessage (datagram : Datagram Host Text)
  /-- Before the handler for the type of the message. -/
  | process (datagram : Datagram Host Text)
  deriving DecidableEq

/-- Where the thread stands that takes the snapshot. -/
inductive SnapshotState where
  | takeSnapshot
  /-- With `channelsToBeRecordedMutex` held. -/
  | sendMarkerMessageToPeers
  | returned
  deriving DecidableEq

inductive Action (Host Text : Type) where
  | received (datagram : Datagram Host Text)
  /-- `incomingMessageCb` has returned. -/
  | calledBack (datagram : Datagram Host Text)
  /-- The datagram has been dropped, or its handler has returned. -/
  | finished (datagram : Datagram Host Text)
  | localStateRecorded
  | markerHandled (sender : Host)
  deriving DecidableEq

/-- What the two threads of a process share, and where they stand.  `multicast` is the state of
the multicast service, and `log` what has happened. -/
structure Process (Host Text State : Type) where
  service : SnapshotService Host (Datagram Host Text) State := {}
  multicast : State
  listener : ListenerState Host Text := .receive
  snapshot : SnapshotState := .takeSnapshot
  received : ℕ := 0
  log : List (Action Host Text) := []

inductive Event (Host Text : Type) where
  | receive (sender : Host) (text : Text)
  | incomingMessageCb
  | dropMessage (dropped : Bool)
  | process
  | takeSnapshot
  /-- `takeSnapshot` returns. -/
  | markersSent
  /-- The thread of a marker stops the recording of its channel. -/
  | markerHandled (sender : Host)

variable {Host Text State : Type}

/-- The channels that the snapshot records, and what the handlers make of the state of the
multicast service. -/
structure Setting (Host Text State : Type) where
  channelsToRecord : List Host
  handler : State → Datagram Host Text → State
  initial : State

namespace Process

def initial (S : Setting Host Text State) : Process Host Text State where
  multicast := S.initial

def step [DecidableEq Host] (S : Setting Host Text State) (pr : Process Host Text State) :
    Event Host Text → Option (Process Host Text State)
  | .receive sender text =>
      match pr.listener with
      | .receive =>
          let datagram : Datagram Host Text := ⟨pr.received, sender, text⟩
          some
            { pr with
              listener := .incomingMessageCb datagram
              received := pr.received + 1
              log := pr.log ++ [.received datagram] }
      | _ => none
  | .incomingMessageCb =>
      match pr.listener with
      | .incomingMessageCb datagram =>
          if pr.snapshot = .sendMarkerMessageToPeers then none
          else
            (pr.service.recordIncomingMessages datagram.sender datagram).map fun service =>
              { pr with
                service := service
                listener := .dropMessage datagram
                log := pr.log ++ [.calledBack datagram] }
      | _ => none
  | .dropMessage dropped =>
      match pr.listener with
      | .dropMessage datagram =>
          if dropped then
            some { pr with listener := .receive, log := pr.log ++ [.finished datagram] }
          else some { pr with listener := .process datagram }
      | _ => none
  | .process =>
      match pr.listener with
      | .process datagram =>
          some
            { pr with
              multicast := S.handler pr.multicast datagram
              listener := .receive
              log := pr.log ++ [.finished datagram] }
      | _ => none
  | .takeSnapshot =>
      if pr.snapshot = .takeSnapshot then
        some
          { pr with
            service := pr.service.takeSnapshot pr.multicast S.channelsToRecord
            snapshot := .sendMarkerMessageToPeers
            log := pr.log ++ [.localStateRecorded] }
      else none
  | .markersSent =>
      if pr.snapshot = .sendMarkerMessageToPeers then some { pr with snapshot := .returned }
      else none
  | .markerHandled sender =>
      if pr.snapshot = .sendMarkerMessageToPeers then none
      else
        some
          { pr with
            service := pr.service.stopRecording sender
            log := pr.log ++ [.markerHandled sender] }

end Process

/-! ## What is accounted for -/

namespace Action

def capturesState : Action Host Text → Bool
  | .localStateRecorded => true
  | _ => false

def handles [DecidableEq Host] (c : Host) : Action Host Text → Bool
  | .markerHandled sender => sender = c
  | _ => false

end Action

namespace Process

/-- The state has been captured. -/
def Captured (pr : Process Host Text State) : Prop :=
  .localStateRecorded ∈ pr.log

/-- The datagram has been received before the marker of its sender was handled. -/
def InTime [DecidableEq Host] (pr : Process Host Text State) (d : Datagram Host Text) : Prop :=
  .received d ∈ Log.before (Action.handles d.sender) pr.log

/-- The datagram has been dropped, or its handler has run, before the state was captured. -/
def InLocalState (pr : Process Host Text State) (d : Datagram Host Text) : Prop :=
  .finished d ∈ Log.before Action.capturesState pr.log

def InChannel (pr : Process Host Text State) (d : Datagram Host Text) : Prop :=
  d ∈ pr.service.recorded d.sender

/-- Once the state has been captured, every datagram in time that is past the callback is either
in the local state or in the state of its channel. -/
def AccountedFor [DecidableEq Host] (S : Setting Host Text State)
    (pr : Process Host Text State) : Prop :=
  pr.Captured → ∀ d, .calledBack d ∈ pr.log → d.sender ∈ S.channelsToRecord → pr.InTime d →
    (pr.InLocalState d ∨ pr.InChannel d) ∧ ¬ (pr.InLocalState d ∧ pr.InChannel d)

/-- The listener is past the callback of the datagram and not done with it. -/
def InBetween (pr : Process Host Text State) (d : Datagram Host Text) : Prop :=
  pr.listener = .dropMessage d ∨ pr.listener = .process d

/-- The state is not captured while the listener is between the callback and the end of a datagram
in time, and a callback for such a datagram does not come after the channel has been closed. -/
def Undivided [DecidableEq Host] (S : Setting Host Text State) (pr : Process Host Text State) :
    Event Host Text → Prop
  | .takeSnapshot => pr.snapshot = .takeSnapshot →
      ∀ d, pr.InBetween d → d.sender ∈ S.channelsToRecord → ¬ pr.InTime d
  | .incomingMessageCb => pr.snapshot = .returned →
      ∀ d, pr.listener = .incomingMessageCb d → d.sender ∈ S.channelsToRecord → pr.InTime d →
        d.sender ∈ pr.service.channelsToBeRecorded
  | _ => True

end Process

/-! ## What the two threads keep -/

namespace Process

variable {S : Setting Host Text State} {pr next : Process Host Text State}
  {d : Datagram Host Text} {x : Action Host Text}

/-- What is in the captured state is settled with the capture. -/
theorem inLocalState_concat (log : next.log = pr.log ++ [x]) (captured : pr.Captured) :
    next.InLocalState d ↔ pr.InLocalState d := by
  unfold InLocalState
  rw [log, Log.before_append_of_mem captured rfl]

/-- At the capture everything that is finished is in the captured state. -/
theorem inLocalState_capture (log : next.log = pr.log ++ [.localStateRecorded])
    (fresh : ¬ pr.Captured) : next.InLocalState d ↔ .finished d ∈ pr.log := by
  have notYet : ∀ a ∈ pr.log, a.capturesState = false := by
    intro a mem
    cases a with
    | localStateRecorded => exact (fresh mem).elim
    | received => rfl
    | calledBack => rfl
    | finished => rfl
    | markerHandled => rfl
  unfold InLocalState
  rw [log, Log.before_append_of_forall notYet]
  have none : Log.before Action.capturesState [(Action.localStateRecorded : Action Host Text)] =
      [] := rfl
  rw [none, List.append_nil]

/-- What the listener keeps. -/
structure Listens (pr : Process Host Text State) : Prop where
  numbers : ∀ d, .received d ∈ pr.log → d.number < pr.received
  atCallback : ∀ d, pr.listener = .incomingMessageCb d →
    .received d ∈ pr.log ∧ .calledBack d ∉ pr.log
  between : ∀ d, pr.InBetween d → .calledBack d ∈ pr.log ∧ .finished d ∉ pr.log
  finished : ∀ d, .finished d ∈ pr.log → .calledBack d ∈ pr.log
  calledBack : ∀ d, .calledBack d ∈ pr.log →
    .received d ∈ pr.log ∧ (.finished d ∈ pr.log ∨ pr.InBetween d)

/-- What the snapshot keeps. -/
structure Records (pr : Process Host Text State) : Prop where
  mapped : pr.service.Mapped
  captured : pr.Captured ↔ pr.snapshot ≠ .takeSnapshot
  fresh : ¬ pr.Captured →
    pr.service.channelsToBeRecorded = ∅ ∧ ∀ c, pr.service.recorded c = []
  recorded : ∀ c, ∀ d ∈ pr.service.recorded c, .calledBack d ∈ pr.log ∧ ¬ pr.InLocalState d

theorem InBetween.listener_ne (between : pr.InBetween d) :
    pr.listener ≠ .receive ∧ ∀ e, pr.listener ≠ .incomingMessageCb e := by
  rcases between with place | place <;> rw [place] <;> exact ⟨nofun, nofun⟩

theorem mem_concat {a : Action Host Text} (log : next.log = pr.log ++ [x]) :
    a ∈ next.log ↔ a ∈ pr.log ∨ a = x := by
  rw [log, List.mem_append, List.mem_singleton]

/-- Something happens at the snapshot. -/
theorem Listens.of_snapshot (h : pr.Listens) (log : next.log = pr.log ++ [x])
    (listener : next.listener = pr.listener) (received : next.received = pr.received)
    (other : ∀ d, x ≠ .received d ∧ x ≠ .calledBack d ∧ x ≠ .finished d) : next.Listens := by
  have receivedIff : ∀ d, .received d ∈ next.log ↔ .received d ∈ pr.log := fun d =>
    (mem_concat log).trans (or_iff_left (Ne.symm (other d).1))
  have calledIff : ∀ d, .calledBack d ∈ next.log ↔ .calledBack d ∈ pr.log := fun d =>
    (mem_concat log).trans (or_iff_left (Ne.symm (other d).2.1))
  have finishedIff : ∀ d, .finished d ∈ next.log ↔ .finished d ∈ pr.log := fun d =>
    (mem_concat log).trans (or_iff_left (Ne.symm (other d).2.2))
  have betweenIff : ∀ d, next.InBetween d ↔ pr.InBetween d := by
    intro d
    rw [InBetween, InBetween, listener]
  obtain ⟨numbers, atCallback, between, finished, calledBack⟩ := h
  refine ⟨?_, ?_, ?_, ?_, ?_⟩
  · simpa only [receivedIff, received] using numbers
  · simpa only [receivedIff, calledIff, listener] using atCallback
  · simpa only [calledIff, finishedIff, betweenIff] using between
  · simpa only [calledIff, finishedIff] using finished
  · simpa only [receivedIff, calledIff, finishedIff, betweenIff] using calledBack

theorem Listens.receive (h : pr.Listens) (place : pr.listener = .receive) {sender : Host}
    {text : Text} (listener : next.listener = .incomingMessageCb ⟨pr.received, sender, text⟩)
    (received : next.received = pr.received + 1)
    (log : next.log = pr.log ++ [.received ⟨pr.received, sender, text⟩]) : next.Listens := by
  have called : ∀ d, .calledBack d ∈ next.log ↔ .calledBack d ∈ pr.log := fun d =>
    (mem_concat log).trans (or_iff_left nofun)
  have finished : ∀ d, .finished d ∈ next.log ↔ .finished d ∈ pr.log := fun d =>
    (mem_concat log).trans (or_iff_left nofun)
  refine ⟨fun d mem => ?_, fun d here => ?_, fun d between => ?_, fun d mem => ?_, fun d mem => ?_⟩
  · rcases (mem_concat log).mp mem with old | new
    · have less := h.numbers d old
      omega
    · cases new
      rw [received]
      exact Nat.lt_succ_self _
  · rw [listener] at here
    cases here
    refine ⟨(mem_concat log).mpr (Or.inr rfl), fun already => ?_⟩
    have less := h.numbers _ (h.calledBack _ ((called _).mp already)).1
    exact Nat.lt_irrefl _ less
  · exact (between.listener_ne.2 _ listener).elim
  · exact (called d).mpr (h.finished d ((finished d).mp mem))
  · obtain ⟨known, done⟩ := h.calledBack d ((called d).mp mem)
    refine ⟨(mem_concat log).mpr (Or.inl known), Or.inl ?_⟩
    rcases done with done | between
    · exact (finished d).mpr done
    · exact (between.listener_ne.1 place).elim

theorem Listens.callBack (h : pr.Listens) (place : pr.listener = .incomingMessageCb d)
    (listener : next.listener = .dropMessage d) (received : next.received = pr.received)
    (log : next.log = pr.log ++ [.calledBack d]) : next.Listens := by
  obtain ⟨known, notYet⟩ := h.atCallback d place
  have receivedIff : ∀ e, .received e ∈ next.log ↔ .received e ∈ pr.log := fun e =>
    (mem_concat log).trans (or_iff_left nofun)
  have finished : ∀ e, .finished e ∈ next.log ↔ .finished e ∈ pr.log := fun e =>
    (mem_concat log).trans (or_iff_left nofun)
  refine ⟨fun e mem => ?_, fun e here => ?_, fun e between => ?_, fun e mem => ?_, fun e mem => ?_⟩
  · rw [received]
    exact h.numbers e ((receivedIff e).mp mem)
  · rw [listener] at here
    cases here
  · have same : e = d := by
      rcases between with here | here <;> rw [listener] at here <;> cases here
      rfl
    rw [same]
    exact ⟨(mem_concat log).mpr (Or.inr rfl), fun done =>
      notYet (h.finished d ((finished d).mp done))⟩
  · exact (mem_concat log).mpr (Or.inl (h.finished e ((finished e).mp mem)))
  · rcases (mem_concat log).mp mem with old | new
    · obtain ⟨known, done⟩ := h.calledBack e old
      refine ⟨(receivedIff e).mpr known, Or.inl ?_⟩
      rcases done with done | between
      · exact (finished e).mpr done
      · exact (between.listener_ne.2 d place).elim
    · cases new
      exact ⟨(receivedIff d).mpr known, Or.inr (Or.inl listener)⟩

/-- The listener is done with a datagram. -/
theorem Listens.finish (h : pr.Listens) (between : pr.InBetween d)
    (listener : next.listener = .receive) (received : next.received = pr.received)
    (log : next.log = pr.log ++ [.finished d]) : next.Listens := by
  have receivedIff : ∀ e, .received e ∈ next.log ↔ .received e ∈ pr.log := fun e =>
    (mem_concat log).trans (or_iff_left nofun)
  have called : ∀ e, .calledBack e ∈ next.log ↔ .calledBack e ∈ pr.log := fun e =>
    (mem_concat log).trans (or_iff_left nofun)
  have only : ∀ e, pr.InBetween e → e = d := by
    intro e between'
    rcases between with here | here <;> rcases between' with here' | here' <;>
      rw [here] at here' <;> cases here'
    · rfl
    · rfl
  refine ⟨fun e mem => ?_, fun e here => ?_, fun e between => ?_, fun e mem => ?_, fun e mem => ?_⟩
  · rw [received]
    exact h.numbers e ((receivedIff e).mp mem)
  · rw [listener] at here
    cases here
  · exact (between.listener_ne.1 listener).elim
  · apply (called e).mpr
    rcases (mem_concat log).mp mem with old | new
    · exact h.finished e old
    · cases new
      exact (h.between d between).1
  · obtain ⟨known, done⟩ := h.calledBack e ((called e).mp mem)
    refine ⟨(receivedIff e).mpr known, Or.inl ?_⟩
    rcases done with done | between'
    · exact (mem_concat log).mpr (Or.inl done)
    · rw [only e between']
      exact (mem_concat log).mpr (Or.inr rfl)

/-- Whatever is recorded has been recorded after the capture. -/
theorem Records.captured_of_recorded (h : pr.Records) {c : Host}
    (mem : d ∈ pr.service.recorded c) : pr.Captured := by
  by_contra fresh
  rw [(h.fresh fresh).2] at mem
  cases mem

/-- Something happens that is no capture, and nothing is recorded with it. -/
theorem Records.concat (h : pr.Records) (log : next.log = pr.log ++ [x])
    (other : x ≠ .localStateRecorded) (snapshot : next.snapshot = pr.snapshot)
    (mapped : next.service.Mapped)
    (channels : next.service.channelsToBeRecorded ⊆ pr.service.channelsToBeRecorded)
    (recorded : ∀ c, next.service.recorded c = pr.service.recorded c) : next.Records := by
  have captured : next.Captured ↔ pr.Captured := (mem_concat log).trans (or_iff_left (Ne.symm other))
  refine ⟨mapped, ?_, fun fresh => ?_, fun c d mem => ?_⟩
  · rw [captured, snapshot]
    exact h.captured
  · obtain ⟨none, empty⟩ := h.fresh fun before => fresh (captured.mpr before)
    rw [none] at channels
    exact ⟨Finset.subset_empty.mp channels, fun c => (recorded c).trans (empty c)⟩
  · rw [recorded] at mem
    obtain ⟨called, notBefore⟩ := h.recorded c d mem
    rw [inLocalState_concat log (h.captured_of_recorded mem)]
    exact ⟨(mem_concat log).mpr (Or.inl called), notBefore⟩

theorem Records.of_same (h : pr.Records) (log : next.log = pr.log)
    (service : next.service = pr.service)
    (snapshot : next.snapshot = .takeSnapshot ↔ pr.snapshot = .takeSnapshot) : next.Records := by
  obtain ⟨mapped, captured, fresh, recorded⟩ := h
  unfold Captured at captured fresh
  unfold InLocalState at recorded
  refine ⟨?_, ?_, ?_, ?_⟩
  · rwa [service]
  · rwa [Captured, log, ne_eq, snapshot]
  · rwa [Captured, log, service]
  · unfold InLocalState
    rwa [log, service]

theorem Listens.of_same (h : pr.Listens) (log : next.log = pr.log)
    (received : next.received = pr.received)
    (atCallback : ∀ d, next.listener = .incomingMessageCb d ↔ pr.listener = .incomingMessageCb d)
    (between : ∀ d, next.InBetween d ↔ pr.InBetween d) : next.Listens := by
  obtain ⟨numbers, called, inside, finished, calledBack⟩ := h
  refine ⟨?_, ?_, ?_, ?_, ?_⟩
  · rwa [log, received]
  · simpa only [log, atCallback] using called
  · simpa only [log, between] using inside
  · rwa [log]
  · simpa only [log, between] using calledBack

structure Sound (pr : Process Host Text State) : Prop where
  listens : pr.Listens
  records : pr.Records

theorem sound_initial (S : Setting Host Text State) : (initial S).Sound := by
  refine ⟨⟨nofun, nofun, fun d between => ?_, nofun, nofun⟩,
    ⟨nofun, ⟨nofun, fun away => (away rfl).elim⟩, fun _ => ⟨rfl, fun _ => rfl⟩, nofun⟩⟩
  exact (between.listener_ne.1 rfl).elim

/-! ## What a step can do -/

variable [DecidableEq Host]

inductive StepCases (S : Setting Host Text State) (pr : Process Host Text State) :
    Event Host Text → Process Host Text State → Prop
  | receive {sender text} (place : pr.listener = .receive) : StepCases S pr (.receive sender text)
      { pr with
        listener := .incomingMessageCb ⟨pr.received, sender, text⟩
        received := pr.received + 1
        log := pr.log ++ [.received ⟨pr.received, sender, text⟩] }
  | callBack {d : Datagram Host Text} {service} (place : pr.listener = .incomingMessageCb d)
      (unlocked : pr.snapshot ≠ .sendMarkerMessageToPeers)
      (recorded : pr.service.recordIncomingMessages d.sender d = some service) :
    StepCases S pr .incomingMessageCb
      { pr with service := service, listener := .dropMessage d, log := pr.log ++ [.calledBack d] }
  | drop {d : Datagram Host Text} (place : pr.listener = .dropMessage d) :
    StepCases S pr (.dropMessage true)
      { pr with listener := .receive, log := pr.log ++ [.finished d] }
  | keep {d : Datagram Host Text} (place : pr.listener = .dropMessage d) :
    StepCases S pr (.dropMessage false)
      { pr with listener := .process d }
  | process {d : Datagram Host Text} (place : pr.listener = .process d) : StepCases S pr .process
      { pr with
        multicast := S.handler pr.multicast d
        listener := .receive
        log := pr.log ++ [.finished d] }
  | takeSnapshot (place : pr.snapshot = .takeSnapshot) : StepCases S pr .takeSnapshot
      { pr with
        service := pr.service.takeSnapshot pr.multicast S.channelsToRecord
        snapshot := .sendMarkerMessageToPeers
        log := pr.log ++ [.localStateRecorded] }
  | markersSent (place : pr.snapshot = .sendMarkerMessageToPeers) : StepCases S pr .markersSent
      { pr with snapshot := .returned }
  | markerHandled {sender} (unlocked : pr.snapshot ≠ .sendMarkerMessageToPeers) :
    StepCases S pr (.markerHandled sender)
      { pr with
        service := pr.service.stopRecording sender
        log := pr.log ++ [.markerHandled sender] }

theorem stepCases_of_step {e : Event Host Text} (taken : pr.step S e = some next) :
    StepCases S pr e next := by
  unfold step at taken
  cases e with
  | receive sender text =>
      dsimp only at taken
      split at taken
      · rename_i place
        cases taken
        exact .receive place
      · cases taken
  | incomingMessageCb =>
      dsimp only at taken
      split at taken
      · rename_i place
        split at taken
        · cases taken
        · rename_i unlocked
          obtain ⟨service, recorded, same⟩ := Option.map_eq_some_iff.mp taken
          rw [← same]
          exact .callBack place unlocked recorded
      · cases taken
  | dropMessage dropped =>
      dsimp only at taken
      split at taken
      · rename_i place
        split at taken
        · rename_i isDropped
          cases taken
          rw [isDropped]
          exact .drop place
        · rename_i isKept
          cases taken
          rw [Bool.eq_false_of_not_eq_true isKept]
          exact .keep place
      · cases taken
  | process =>
      dsimp only at taken
      split at taken
      · rename_i place
        cases taken
        exact .process place
      · cases taken
  | takeSnapshot =>
      dsimp only at taken
      split at taken
      · rename_i place
        cases taken
        exact .takeSnapshot place
      · cases taken
  | markersSent =>
      dsimp only at taken
      split at taken
      · rename_i place
        cases taken
        exact .markersSent place
      · cases taken
  | markerHandled sender =>
      dsimp only at taken
      split at taken
      · cases taken
      · rename_i unlocked
        cases taken
        exact .markerHandled unlocked

/-! ## The order of things -/

/-- A datagram that has been received stays in time, or late. -/
theorem inTime_concat (log : next.log = pr.log ++ [x]) (received : .received d ∈ pr.log) :
    next.InTime d ↔ pr.InTime d := by
  unfold InTime
  rw [log]
  by_cases handled : ∃ a ∈ pr.log, a.handles d.sender = true
  · obtain ⟨a, mem, handles⟩ := handled
    rw [Log.before_append_of_mem mem handles]
  · have notYet : ∀ a ∈ pr.log, a.handles d.sender = false := by
      intro a mem
      rw [← Bool.not_eq_true]
      exact fun handles => handled ⟨a, mem, handles⟩
    rw [Log.before_append_of_forall notYet, Log.before_of_forall notYet]
    exact iff_of_true (List.mem_append_left _ received) received

/-- The callback records the datagram if its channel is to be recorded. -/
theorem Records.callBack (h : pr.Records) (listens : pr.Listens)
    (place : pr.listener = .incomingMessageCb d)
    (called : pr.service.recordIncomingMessages d.sender d = some next.service)
    (snapshot : next.snapshot = pr.snapshot) (log : next.log = pr.log ++ [.calledBack d]) :
    next.Records := by
  obtain ⟨service, called', mapped, _, channels, recorded⟩ :=
    h.mapped.recordIncomingMessages d.sender d
  rw [called] at called'
  cases called'
  have captured : next.Captured ↔ pr.Captured := (mem_concat log).trans (or_iff_left nofun)
  refine ⟨mapped, ?_, fun fresh => ?_, fun c e mem => ?_⟩
  · rw [captured, snapshot]
    exact h.captured
  · obtain ⟨none, empty⟩ := h.fresh fun before => fresh (captured.mpr before)
    refine ⟨channels.trans none, fun c => ?_⟩
    rw [recorded, none, if_neg fun both => Finset.notMem_empty c both.2]
    exact empty c
  · rw [recorded] at mem
    split at mem
    · rename_i inside
      have opened : pr.Captured := by
        by_contra fresh
        have away := inside.2
        rw [(h.fresh fresh).1] at away
        exact Finset.notMem_empty c away
      rw [inLocalState_concat log opened]
      rcases List.mem_append.mp mem with old | new
      · obtain ⟨called, notBefore⟩ := h.recorded c e old
        exact ⟨(mem_concat log).mpr (Or.inl called), notBefore⟩
      · cases List.mem_singleton.mp new
        refine ⟨(mem_concat log).mpr (Or.inr rfl), fun before => ?_⟩
        exact (listens.atCallback d place).2 (listens.finished d (Log.subset_of_before before))
    · obtain ⟨called, notBefore⟩ := h.recorded c e mem
      rw [inLocalState_concat log (h.captured_of_recorded mem)]
      exact ⟨(mem_concat log).mpr (Or.inl called), notBefore⟩

/-- With the capture nothing is recorded yet. -/
theorem Records.recorded_takeSnapshot (h : pr.Records) (place : pr.snapshot = .takeSnapshot)
    (c : Host) : (pr.service.takeSnapshot pr.multicast S.channelsToRecord).recorded c = [] := by
  have fresh : ¬ pr.Captured := fun captured => h.captured.mp captured place
  rw [SnapshotService.recorded_takeSnapshot, (h.fresh fresh).2]
  exact ite_self []

theorem Records.takeSnapshot (h : pr.Records) (place : pr.snapshot = .takeSnapshot)
    (service : next.service = pr.service.takeSnapshot pr.multicast S.channelsToRecord)
    (snapshot : next.snapshot = .sendMarkerMessageToPeers)
    (log : next.log = pr.log ++ [.localStateRecorded]) : next.Records := by
  have captured : next.Captured := (mem_concat log).mpr (Or.inr rfl)
  refine ⟨?_, ?_, fun fresh => (fresh captured).elim, fun c d mem => ?_⟩
  · rw [service]
    exact h.mapped.takeSnapshot
  · rw [snapshot]
    exact iff_of_true captured nofun
  · rw [service, h.recorded_takeSnapshot place] at mem
    cases mem

theorem Sound.step (h : pr.Sound) {e : Event Host Text} (taken : pr.step S e = some next) :
    next.Sound := by
  obtain ⟨listens, records⟩ := h
  cases stepCases_of_step taken with
  | receive place =>
      exact ⟨listens.receive place rfl rfl rfl,
        records.concat rfl nofun rfl records.mapped (fun _ mem => mem) fun _ => rfl⟩
  | callBack place unlocked recorded =>
      exact ⟨listens.callBack place rfl rfl rfl, records.callBack listens place recorded rfl rfl⟩
  | drop place =>
      exact ⟨listens.finish (Or.inl place) rfl rfl rfl,
        records.concat rfl nofun rfl records.mapped (fun _ mem => mem) fun _ => rfl⟩
  | keep place =>
      refine ⟨listens.of_same rfl rfl (fun e => ?_) fun e => ?_, records.of_same rfl rfl Iff.rfl⟩
      · rw [place]
        exact iff_of_false nofun nofun
      · unfold InBetween
        rw [place]
        simp
  | process place =>
      exact ⟨listens.finish (Or.inr place) rfl rfl rfl,
        records.concat rfl nofun rfl records.mapped (fun _ mem => mem) fun _ => rfl⟩
  | takeSnapshot place =>
      exact ⟨listens.of_snapshot rfl rfl rfl fun _ => ⟨nofun, nofun, nofun⟩,
        records.takeSnapshot place rfl rfl rfl⟩
  | markersSent place =>
      refine ⟨listens.of_same rfl rfl (fun _ => Iff.rfl) fun _ => Iff.rfl,
        records.of_same rfl rfl ?_⟩
      rw [place]
      exact iff_of_false nofun nofun
  | markerHandled unlocked =>
      exact ⟨listens.of_snapshot rfl rfl rfl fun _ => ⟨nofun, nofun, nofun⟩,
        records.concat rfl nofun rfl records.mapped.stopRecording
          (Finset.erase_subset _ _) fun _ => rfl⟩

/-! ## What is accounted for along a run -/

/-- Something happens that is neither a callback nor the capture. -/
theorem AccountedFor.concat (h : pr.AccountedFor S) (sound : pr.Sound)
    (log : next.log = pr.log ++ [x])
    (other : x ≠ .localStateRecorded ∧ ∀ d, x ≠ .calledBack d)
    (recorded : ∀ c, next.service.recorded c = pr.service.recorded c) : next.AccountedFor S := by
  intro captured d called toRecord inTime
  have before : pr.Captured := ((mem_concat log).mp captured).resolve_right (Ne.symm other.1)
  have calledBefore := ((mem_concat log).mp called).resolve_right (Ne.symm (other.2 d))
  rw [inTime_concat log (sound.listens.calledBack d calledBefore).1] at inTime
  rw [inLocalState_concat log before, InChannel, recorded]
  exact h before d calledBefore toRecord inTime

theorem AccountedFor.of_same (h : pr.AccountedFor S) (log : next.log = pr.log)
    (service : next.service = pr.service) : next.AccountedFor S := by
  unfold AccountedFor Captured InTime InLocalState InChannel at h ⊢
  rwa [log, service]

/-- The callback of a datagram: whether it is accounted for then. -/
theorem accountedFor_callBack (h : pr.AccountedFor S) (sound : pr.Sound)
    (place : pr.listener = .incomingMessageCb d)
    (unlocked : pr.snapshot ≠ .sendMarkerMessageToPeers)
    (called : pr.service.recordIncomingMessages d.sender d = some next.service)
    (log : next.log = pr.log ++ [.calledBack d]) :
    next.AccountedFor S ↔ pr.Undivided S .incomingMessageCb := by
  obtain ⟨service, called', _, _, _, recorded⟩ :=
    sound.records.mapped.recordIncomingMessages d.sender d
  rw [called] at called'
  cases called'
  obtain ⟨received, notCalled⟩ := sound.listens.atCallback d place
  have captured : next.Captured ↔ pr.Captured := (mem_concat log).trans (or_iff_left nofun)
  have notFinished : ¬ pr.InLocalState d := fun before =>
    notCalled (sound.listens.finished d (Log.subset_of_before before))
  have notRecorded : d ∉ pr.service.recorded d.sender := fun mem =>
    notCalled (sound.records.recorded _ d mem).1
  have here : next.InChannel d ↔ d.sender ∈ pr.service.channelsToBeRecorded := by
    rw [InChannel, recorded]
    split
    · rename_i inside
      exact iff_of_true (List.mem_append_right _ (List.mem_singleton_self d)) inside.2
    · rename_i outside
      exact iff_of_false notRecorded fun isOpen => outside ⟨rfl, isOpen⟩
  have elsewhere : ∀ e, e ≠ d → (next.InChannel e ↔ pr.InChannel e) := by
    intro e different
    rw [InChannel, recorded, InChannel]
    split
    · rw [List.mem_append, List.mem_singleton]
      exact or_iff_left different
    · exact Iff.rfl
  constructor
  · intro accounted returned e place' toRecord inTime
    rw [place] at place'
    cases place'
    have opened : pr.Captured := sound.records.captured.mpr (by rw [returned]; exact nofun)
    have accountedE := accounted (captured.mpr opened) d ((mem_concat log).mpr (Or.inr rfl))
      toRecord ((inTime_concat log received).mpr inTime)
    rcases accountedE.1 with before | inChannel
    · exact (notFinished ((inLocalState_concat log opened).mp before)).elim
    · exact here.mp inChannel
  · intro undivided now e calledE toRecord inTime
    have opened := captured.mp now
    have returned : pr.snapshot = .returned := by
      have past := sound.records.captured.mp opened
      cases place' : pr.snapshot with
      | takeSnapshot => exact (past place').elim
      | sendMarkerMessageToPeers => exact (unlocked place').elim
      | returned => rfl
    rw [inLocalState_concat log opened]
    by_cases same : e = d
    · rw [same] at inTime toRecord ⊢
      rw [inTime_concat log received] at inTime
      exact ⟨Or.inr (here.mpr (undivided returned d place toRecord inTime)), fun both =>
        notFinished both.1⟩
    · have calledBefore : .calledBack e ∈ pr.log := by
        rcases (mem_concat log).mp calledE with old | new
        · exact old
        · cases new
          exact (same rfl).elim
      rw [inTime_concat log (sound.listens.calledBack e calledBefore).1] at inTime
      rw [elsewhere e same]
      exact h opened e calledBefore toRecord inTime

/-- The capture: whether everything is accounted for then. -/
theorem accountedFor_takeSnapshot (sound : pr.Sound) (place : pr.snapshot = .takeSnapshot)
    (service : next.service = pr.service.takeSnapshot pr.multicast S.channelsToRecord)
    (log : next.log = pr.log ++ [.localStateRecorded]) :
    next.AccountedFor S ↔ pr.Undivided S .takeSnapshot := by
  have fresh : ¬ pr.Captured := fun captured => sound.records.captured.mp captured place
  have captured : next.Captured := (mem_concat log).mpr (Or.inr rfl)
  have called : ∀ d, .calledBack d ∈ next.log ↔ .calledBack d ∈ pr.log := fun d =>
    (mem_concat log).trans (or_iff_left nofun)
  have none : ∀ d, ¬ next.InChannel d := by
    intro d
    rw [InChannel, service, sound.records.recorded_takeSnapshot place]
    exact List.not_mem_nil
  constructor
  · intro accounted _ d between toRecord inTime
    obtain ⟨calledD, notFinished⟩ := sound.listens.between d between
    have received := (sound.listens.calledBack d calledD).1
    rcases (accounted captured d ((called d).mpr calledD) toRecord
      ((inTime_concat log received).mpr inTime)).1 with before | inChannel
    · exact notFinished ((inLocalState_capture log fresh).mp before)
    · exact none d inChannel
  · intro undivided _ d calledD toRecord inTime
    refine ⟨Or.inl ((inLocalState_capture log fresh).mpr ?_), fun both => none d both.2⟩
    obtain ⟨received, done⟩ := sound.listens.calledBack d ((called d).mp calledD)
    rcases done with finished | between
    · exact finished
    · rw [inTime_concat log received] at inTime
      exact (undivided place d between toRecord inTime).elim

/-- After every step everything is accounted for, exactly when the step is allowed. -/
theorem accountedFor_step_iff (h : pr.AccountedFor S) (sound : pr.Sound)
    (e : Event Host Text) :
    (∀ next ∈ pr.step S e, next.AccountedFor S) ↔ pr.Undivided S e := by
  constructor
  · intro accounted
    cases e with
    | incomingMessageCb =>
        intro returned d place
        have unlocked : pr.snapshot ≠ .sendMarkerMessageToPeers := by
          rw [returned]
          exact nofun
        obtain ⟨service, called, _⟩ := sound.records.mapped.recordIncomingMessages d.sender d
        have taken : pr.step S .incomingMessageCb =
            some
              { pr with
                service := service
                listener := .dropMessage d
                log := pr.log ++ [.calledBack d] } := by
          simp only [step, place, if_neg unlocked, called, Option.map_some]
        exact (accountedFor_callBack h sound place unlocked called rfl).mp (accounted _ taken)
          returned d place
    | takeSnapshot =>
        intro place
        have taken : pr.step S .takeSnapshot =
            some
              { pr with
                service := pr.service.takeSnapshot pr.multicast S.channelsToRecord
                snapshot := .sendMarkerMessageToPeers
                log := pr.log ++ [.localStateRecorded] } := if_pos place
        exact (accountedFor_takeSnapshot sound place rfl rfl).mp (accounted _ taken) place
    | receive => trivial
    | dropMessage => trivial
    | process => trivial
    | markersSent => trivial
    | markerHandled => trivial
  · intro undivided next taken
    cases stepCases_of_step taken with
    | receive => exact h.concat sound rfl ⟨nofun, nofun⟩ fun _ => rfl
    | callBack place unlocked called =>
        exact (accountedFor_callBack h sound place unlocked called rfl).mpr undivided
    | drop => exact h.concat sound rfl ⟨nofun, nofun⟩ fun _ => rfl
    | keep => exact h.of_same rfl rfl
    | process => exact h.concat sound rfl ⟨nofun, nofun⟩ fun _ => rfl
    | takeSnapshot place => exact (accountedFor_takeSnapshot sound place rfl rfl).mpr undivided
    | markersSent => exact h.of_same rfl rfl
    | markerHandled => exact h.concat sound rfl ⟨nofun, nofun⟩ fun _ => rfl

theorem accountedFor_initial (S : Setting Host Text State) : (initial S).AccountedFor S :=
  nofun

/-- **Messages at the cut.**  In every state of a run every datagram is accounted for once, exactly
when the state is never captured between the callback and the end of a datagram in time from a
channel that is recorded, and no callback of one comes after its channel has been closed. -/
theorem accounted_iff (S : Setting Host Text State) (events : List (Event Host Text)) :
    (∀ pr, Visits (step S) (initial S) events pr → pr.AccountedFor S) ↔
      allowedAlong (step S) (Undivided S) (initial S) events := by
  rw [forall_visits_iff, and_iff_right (accountedFor_initial S)]
  apply allowedAlong_congr (I := fun pr => pr.Sound ∧ pr.AccountedFor S)
  · intro pr e known
    exact accountedFor_step_iff known.2 known.1 e
  · intro pr e next known undivided taken
    exact ⟨known.1.step taken,
      (accountedFor_step_iff known.2 known.1 e).mpr undivided next taken⟩
  · exact ⟨sound_initial S, accountedFor_initial S⟩

/-- One channel to record; the handlers count the messages. -/
def countingMessages : Setting ℕ ℕ ℕ where
  channelsToRecord := [1]
  handler count _ := count + 1
  initial := 0

/-- The state is captured when the listener has called `recordIncomingMessages` for a message of
host 1 and not its handler yet. -/
def dividedRun : List (Event ℕ ℕ) :=
  [.receive 1 7, .incomingMessageCb, .takeSnapshot, .dropMessage false, .process]

theorem dividedRun_through :
    (replay (step countingMessages) (initial countingMessages) dividedRun).isSome = true := by
  decide +kernel

def divided : Process ℕ ℕ ℕ :=
  (replay (step countingMessages) (initial countingMessages) dividedRun).get dividedRun_through

/-- The message is neither in the captured state nor recorded. -/
theorem neither_processed_nor_recorded : ¬ ∀ (S : Setting ℕ ℕ ℕ) (pr : Process ℕ ℕ ℕ),
    Reach (step S) Always (initial S) pr → pr.AccountedFor S := by
  intro claim
  have reach := Reach.of_isSome (allowedAlong_always _ _) dividedRun_through
  have captured : Action.localStateRecorded ∈ divided.log := by decide +kernel
  have called : Action.calledBack ⟨0, 1, 7⟩ ∈ divided.log := by decide +kernel
  have inTime : Action.received ⟨0, 1, 7⟩ ∈ Log.before (Action.handles 1) divided.log := by
    decide +kernel
  have notProcessed : Action.finished ⟨0, 1, 7⟩ ∉
      Log.before Action.capturesState divided.log := by
    decide +kernel
  have notRecorded : ⟨0, 1, 7⟩ ∉ divided.service.recorded 1 := by decide +kernel
  rcases (claim countingMessages divided reach captured _ called (List.mem_singleton_self 1)
    inTime).1 with processed | recorded
  · exact notProcessed processed
  · exact notRecorded recorded

end Process

end GroupComm.Lab1.Cut
