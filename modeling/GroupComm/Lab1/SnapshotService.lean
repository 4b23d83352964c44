import Mathlib.Data.Finset.Basic
import Mathlib.Logic.Function.Basic

/-!
# The snapshot service

What `SnapshotService` keeps of one process, and what its functions do to it while they hold
`channelsToBeRecordedMutex`.

* `Text` is what `IncomingChannelState::recordMessage` keeps of a message, and `State` what the
  `localStateGetter` returns.
* `incomingChannels` is an `unordered_map`: a channel that has never been recorded is not there,
  and `at` throws for it.
-/

namespace GroupComm.Lab1

structure SnapshotService (Host Text State : Type) where
  snapshotInitiated : Bool := false
  channelsToBeRecorded : Finset Host := ∅
  incomingChannels : Host → Option (List Text) := fun _ => none
  localState : Option State := none

namespace SnapshotService

variable {Host Text State : Type} [DecidableEq Host]

/-- The body of the loop in `takeSnapshot`. -/
def startRecording (s : SnapshotService Host Text State) (channel : Host) :
    SnapshotService Host Text State :=
  { s with
    channelsToBeRecorded := insert channel s.channelsToBeRecorded
    incomingChannels := Function.update s.incomingChannels channel (some []) }

/-- `takeSnapshot`, up to the markers. -/
def takeSnapshot (s : SnapshotService Host Text State) (localState : State)
    (channelsToRecord : List Host) : SnapshotService Host Text State :=
  channelsToRecord.foldl startRecording { s with localState := some localState }

/-- `recordIncomingMessages`; `none` is the exception of `at`. -/
def recordIncomingMessages (s : SnapshotService Host Text State) (sender : Host) (text : Text) :
    Option (SnapshotService Host Text State) :=
  if sender ∈ s.channelsToBeRecorded then
    (s.incomingChannels sender).map fun messages =>
      { s with
        incomingChannels :=
          Function.update s.incomingChannels sender (some (messages ++ [text])) }
  else some s

/-- What a thread does that has handled a marker of the sender. -/
def stopRecording (s : SnapshotService Host Text State) (sender : Host) :
    SnapshotService Host Text State :=
  { s with channelsToBeRecorded := s.channelsToBeRecorded.erase sender }

/-- `getRecordedMessages` of a channel. -/
def recorded (s : SnapshotService Host Text State) (channel : Host) : List Text :=
  (s.incomingChannels channel).getD []

variable {s s' : SnapshotService Host Text State} {channels : List Host} {c sender : Host}
  {text : Text} {localState : State}

/-! ## What the functions change -/

theorem snapshotInitiated_takeSnapshot (s : SnapshotService Host Text State) (localState : State)
    (channels : List Host) :
    (s.takeSnapshot localState channels).snapshotInitiated = s.snapshotInitiated := by
  have kept : ∀ s : SnapshotService Host Text State,
      (channels.foldl startRecording s).snapshotInitiated = s.snapshotInitiated := by
    induction channels with
    | nil => exact fun _ => rfl
    | cons channel channels ih => exact fun s => ih (s.startRecording channel)
  exact kept _

theorem foldl_startRecording :
    (c ∈ (channels.foldl startRecording s).channelsToBeRecorded ↔
        c ∈ channels ∨ c ∈ s.channelsToBeRecorded) ∧
      (channels.foldl startRecording s).incomingChannels c =
        if c ∈ channels then some [] else s.incomingChannels c := by
  induction channels generalizing s with
  | nil => simp
  | cons channel channels ih =>
      obtain ⟨toRecord, incoming⟩ := ih (s := s.startRecording channel)
      rw [List.foldl_cons]
      constructor
      · rw [toRecord, startRecording, Finset.mem_insert, List.mem_cons]
        tauto
      · rw [incoming]
        by_cases later : c ∈ channels
        · rw [if_pos later, if_pos (List.mem_cons_of_mem _ later)]
        · simp [startRecording, Function.update_apply, later]

theorem mem_channelsToBeRecorded_takeSnapshot :
    c ∈ (s.takeSnapshot localState channels).channelsToBeRecorded ↔
      c ∈ channels ∨ c ∈ s.channelsToBeRecorded :=
  foldl_startRecording.1

theorem incomingChannels_takeSnapshot :
    (s.takeSnapshot localState channels).incomingChannels c =
      if c ∈ channels then some [] else s.incomingChannels c :=
  foldl_startRecording.2

/-- A channel that is to be recorded is there. -/
def Mapped (s : SnapshotService Host Text State) : Prop :=
  ∀ c ∈ s.channelsToBeRecorded, (s.incomingChannels c).isSome = true

theorem Mapped.takeSnapshot (mapped : s.Mapped) :
    (s.takeSnapshot localState channels).Mapped := by
  intro c mem
  rw [incomingChannels_takeSnapshot]
  split
  · rfl
  · rename_i other
    exact mapped c ((mem_channelsToBeRecorded_takeSnapshot.mp mem).resolve_left other)

theorem Mapped.stopRecording (mapped : s.Mapped) : (s.stopRecording sender).Mapped :=
  fun c mem => mapped c (Finset.mem_of_mem_erase mem)

/-- `at` does not throw: the call goes through, and adds the message to a channel that is to be
recorded. -/
theorem Mapped.recordIncomingMessages (mapped : s.Mapped) (sender : Host) (text : Text) :
    ∃ s', s.recordIncomingMessages sender text = some s' ∧ s'.Mapped ∧
      s'.snapshotInitiated = s.snapshotInitiated ∧
      s'.channelsToBeRecorded = s.channelsToBeRecorded ∧
      ∀ c, s'.recorded c =
        if c = sender ∧ c ∈ s.channelsToBeRecorded then s.recorded c ++ [text]
        else s.recorded c := by
  unfold SnapshotService.recordIncomingMessages
  by_cases open' : sender ∈ s.channelsToBeRecorded
  · obtain ⟨messages, found⟩ := Option.isSome_iff_exists.mp (mapped sender open')
    rw [if_pos open', found]
    refine ⟨_, rfl, fun c mem => ?_, rfl, rfl, fun c => ?_⟩
    · dsimp only
      rw [Function.update_apply]
      split
      · rfl
      · exact mapped c mem
    · unfold recorded
      dsimp only
      rw [Function.update_apply]
      by_cases same : c = sender
      · rw [if_pos same, if_pos ⟨same, same ▸ open'⟩, same, found]
        rfl
      · rw [if_neg same, if_neg fun both => same both.1]
  · rw [if_neg open']
    refine ⟨s, rfl, mapped, rfl, rfl, fun c => ?_⟩
    rw [if_neg]
    intro both
    exact open' (both.1 ▸ both.2)

theorem recorded_takeSnapshot :
    (s.takeSnapshot localState channels).recorded c =
      if c ∈ channels then [] else s.recorded c := by
  unfold recorded
  rw [incomingChannels_takeSnapshot]
  split <;> rfl

end SnapshotService

end GroupComm.Lab1
