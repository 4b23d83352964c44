import Mathlib.Algebra.Group.Nat.Defs
import GroupComm.Lab1.ContinuousMsgSender
import GroupComm.Library.Transition

/-!
# The thread of a `ContinuousMsgSender`

`startSendingMessages` beside any number of calls of `queueMsg` and `removeRecipient` from other
threads.  A block under `msgListMutex` is one step.  The test of `msgList.empty()` is made outside
the lock and is a step of its own; so is the `notify_all` of a call of `queueMsg`, which follows
its block.  `cv.wait` may wake up without having been notified.

* `queueContainsData` is set with every message that is queued and reset by the sending thread
  only, on its way out of `cv.wait`.  So it is set whenever the list has a message and the thread
  is between its test and the end of `cv.wait` (`Alert`).
* `no_lost_wakeup`: a thread that is blocked has an empty list, or a notification is on its way to
  it and makes it send.
-/

namespace GroupComm.Lab1

open Transition

/-- Where the sending thread stands in `startSendingMessages`. -/
inductive SenderPlace where
  /-- Before the test of `msgList.empty()`. -/
  | test
  /-- In `cv.wait`, about to take the lock and to look at the predicate. -/
  | wait
  /-- In `cv.wait`, without the lock. -/
  | blocked
  | send
  | sleep (millis : ℕ)
  deriving DecidableEq

structure SendingThread (T Host : Type) where
  sender : ContinuousMsgSender T Host := {}
  queueContainsData : Bool := false
  retryCount : ℕ := 0
  place : SenderPlace := .test
  /-- The calls of `queueMsg` that have released the lock and have still to call `notify_all`. -/
  notifying : ℕ := 0
  /-- The lists that the passes have sent so far. -/
  passes : List (List (MsgHolder T Host)) := []

namespace SendingThread

inductive Event (T Host : Type) where
  /-- The block of a call of `queueMsg`. -/
  | queueMsg (message : T)
  /-- The end of a call of `queueMsg`. -/
  | notifyAll
  | removeRecipient (messageId : UInt32) (recipient : Host)
  /-- The next step of the sending thread. -/
  | run
  /-- `cv.wait` wakes up by itself. -/
  | wakeUp

variable {T Host : Type}

/-- `getSendingInterval`, with the `retryCount` it leaves. -/
def getSendingInterval (maxSendingIntervalMillis retryCount : ℕ) : ℕ × ℕ :=
  let interval := 2 ^ retryCount * 200
  if maxSendingIntervalMillis < interval then (200, 0) else (interval, retryCount + 1)

theorem getSendingInterval_le (maxSendingIntervalMillis retryCount : ℕ) :
    (getSendingInterval maxSendingIntervalMillis retryCount).1 ≤
      max 200 maxSendingIntervalMillis := by
  unfold getSendingInterval
  dsimp only
  split
  · exact Nat.le_max_left _ _
  · rename_i within
    exact Nat.le_trans (Nat.not_lt.mp within) (Nat.le_max_right _ _)

/-- What `notify_all` does to the sending thread. -/
def wakeUp (s : SendingThread T Host) : SendingThread T Host :=
  { s with place := if s.place = .blocked then .wait else s.place }

/-- The next step of the sending thread. -/
def run (maxSendingIntervalMillis : ℕ) (s : SendingThread T Host) :
    Option (SendingThread T Host) :=
  match s.place with
  | .test => some { s with place := if s.sender.msgList.isEmpty then .wait else .send }
  | .wait =>
      if s.queueContainsData then some { s with queueContainsData := false, place := .send }
      else some { s with place := .blocked }
  | .blocked => none
  | .send =>
      let (interval, retryCount) := getSendingInterval maxSendingIntervalMillis s.retryCount
      some
        { s with
          passes := s.passes ++ [s.sender.msgList]
          retryCount := retryCount
          place := .sleep interval }
  | .sleep _ => some { s with place := .test }

variable [HasMsgId T] [DecidableEq Host]

def step (recipients : List Host) (maxSendingIntervalMillis : ℕ) (s : SendingThread T Host) :
    Event T Host → Option (SendingThread T Host)
  | .queueMsg message =>
      some
        { s with
          sender := s.sender.queueMsg recipients message
          queueContainsData := true
          notifying := s.notifying + 1 }
  | .notifyAll =>
      if 0 < s.notifying then some { s.wakeUp with notifying := s.notifying - 1 } else none
  | .removeRecipient messageId recipient =>
      some { s with sender := (s.sender.removeRecipient messageId recipient).2 }
  | .run => s.run maxSendingIntervalMillis
  | .wakeUp => if s.place = .blocked then some s.wakeUp else none

variable {recipients : List Host} {maxSendingIntervalMillis : ℕ} {s s' : SendingThread T Host}

/-! ## The flag -/

/-- The flag is set for a thread that waits beside a list with a message, and whoever has set it
for a thread that is blocked has still to notify it. -/
structure Alert (maxSendingIntervalMillis : ℕ) (s : SendingThread T Host) : Prop where
  flagged : s.place = .wait ∨ s.place = .blocked → s.sender.msgList ≠ [] →
    s.queueContainsData = true
  notified : s.place = .blocked → s.queueContainsData = true → 0 < s.notifying
  bounded : ∀ millis, s.place = .sleep millis → millis ≤ max 200 maxSendingIntervalMillis

omit [HasMsgId T] [DecidableEq Host] in
theorem alert_init : Alert maxSendingIntervalMillis ({} : SendingThread T Host) :=
  ⟨nofun, nofun, nofun⟩

/-- A list that is empty stays empty. -/
theorem msgList_removeRecipient_ne {sender : ContinuousMsgSender T Host} {messageId : UInt32}
    {recipient : Host} (nonempty : (sender.removeRecipient messageId recipient).2.msgList ≠ []) :
    sender.msgList ≠ [] := by
  intro none
  apply nonempty
  unfold ContinuousMsgSender.removeRecipient
  rw [none]
  rfl

omit [HasMsgId T] [DecidableEq Host] in
/-- Waking up is only a move within `cv.wait`. -/
theorem Alert.wakeUp (h : Alert maxSendingIntervalMillis s) :
    s.wakeUp.place ≠ .blocked ∧ (s.wakeUp.place = .wait → s.sender.msgList ≠ [] →
      s.queueContainsData = true) ∧
        ∀ millis, s.wakeUp.place = .sleep millis → millis ≤ max 200 maxSendingIntervalMillis := by
  unfold SendingThread.wakeUp
  dsimp only
  split
  · rename_i place
    exact ⟨nofun, fun _ => h.flagged (Or.inr place), nofun⟩
  · rename_i other
    exact ⟨other, fun place => h.flagged (Or.inl place), h.bounded⟩

omit [HasMsgId T] [DecidableEq Host] in
theorem Alert.run (h : Alert maxSendingIntervalMillis s)
    (taken : s.run maxSendingIntervalMillis = some s') : Alert maxSendingIntervalMillis s' := by
  unfold SendingThread.run at taken
  split at taken
  · cases taken
    split
    · -- the list is empty when the thread begins to wait
      rename_i empty
      exact ⟨fun _ nonempty => absurd (List.isEmpty_iff.mp empty) nonempty, nofun, nofun⟩
    · exact ⟨nofun, nofun, nofun⟩
  · rename_i place
    split at taken
    · cases taken
      exact ⟨nofun, nofun, nofun⟩
    · rename_i clear
      cases taken
      exact ⟨fun _ => h.flagged (Or.inl place), fun _ flag => absurd flag clear, nofun⟩
  · cases taken
  · cases taken
    refine ⟨nofun, nofun, fun millis place => ?_⟩
    cases place
    exact getSendingInterval_le _ _
  · cases taken
    exact ⟨nofun, nofun, nofun⟩

theorem Alert.step (h : Alert maxSendingIntervalMillis s) {e : Event T Host}
    (taken : s.step recipients maxSendingIntervalMillis e = some s') :
    Alert maxSendingIntervalMillis s' := by
  cases e with
  | queueMsg message =>
      cases taken
      exact ⟨fun _ _ => rfl, fun _ _ => Nat.succ_pos _, h.bounded⟩
  | notifyAll =>
      obtain ⟨awake, flagged, bounded⟩ := h.wakeUp
      rw [SendingThread.step] at taken
      split at taken
      · cases taken
        exact ⟨fun place => flagged (place.resolve_right awake), fun place => absurd place awake,
          bounded⟩
      · cases taken
  | removeRecipient messageId recipient =>
      cases taken
      exact ⟨fun place nonempty => h.flagged place (msgList_removeRecipient_ne nonempty),
        h.notified, h.bounded⟩
  | run => exact h.run taken
  | wakeUp =>
      obtain ⟨awake, flagged, bounded⟩ := h.wakeUp
      rw [SendingThread.step] at taken
      split at taken
      · cases taken
        exact ⟨fun place => flagged (place.resolve_right awake), fun place => absurd place awake,
          bounded⟩
      · cases taken

/-! ## What is queued is sent -/

/-- With the steps of the sending thread, and of calls that are under way, the list is sent as it
is. -/
def Retransmits (recipients : List Host) (maxSendingIntervalMillis : ℕ)
    (s : SendingThread T Host) : Prop :=
  ∃ events : List (Event T Host), (∀ e ∈ events, e = .run ∨ e = .notifyAll) ∧
    ∃ s', replay (step recipients maxSendingIntervalMillis) s events = some s' ∧
      s'.passes = s.passes ++ [s.sender.msgList]

theorem Retransmits.of_step {e : Event T Host} (goesOn : e = .run ∨ e = .notifyAll)
    (taken : s.step recipients maxSendingIntervalMillis e = some s')
    (sender : s'.sender = s.sender) (passes : s'.passes = s.passes)
    (h : Retransmits recipients maxSendingIntervalMillis s') :
    Retransmits recipients maxSendingIntervalMillis s := by
  obtain ⟨events, only, last, led, sent⟩ := h
  refine ⟨e :: events, List.forall_mem_cons.mpr ⟨goesOn, only⟩, last, ?_, ?_⟩
  · rw [replay, taken]
    exact led
  · rw [sent, sender, passes]

theorem retransmits_of_send (place : s.place = .send) :
    Retransmits recipients maxSendingIntervalMillis s := by
  refine ⟨[.run], fun e mem => Or.inl (List.mem_singleton.mp mem), ?_⟩
  rw [replay, step, run, place]
  exact ⟨_, rfl, rfl⟩

theorem retransmits_of_test (place : s.place = .test) (nonempty : s.sender.msgList ≠ []) :
    Retransmits recipients maxSendingIntervalMillis s := by
  have next : s.step recipients maxSendingIntervalMillis .run =
      some { s with place := .send } := by
    rw [step, run, place]
    dsimp only
    rw [if_neg (by rwa [List.isEmpty_iff])]
  exact .of_step (Or.inl rfl) next rfl rfl (retransmits_of_send rfl)

theorem retransmits_of_wait (place : s.place = .wait) (flag : s.queueContainsData = true) :
    Retransmits recipients maxSendingIntervalMillis s := by
  have next : s.step recipients maxSendingIntervalMillis .run =
      some { s with queueContainsData := false, place := .send } := by
    rw [step, run, place]
    dsimp only
    rw [if_pos flag]
  exact .of_step (Or.inl rfl) next rfl rfl (retransmits_of_send rfl)

theorem Alert.retransmits (h : Alert maxSendingIntervalMillis s)
    (nonempty : s.sender.msgList ≠ []) : Retransmits recipients maxSendingIntervalMillis s := by
  cases place : s.place with
  | test => exact retransmits_of_test place nonempty
  | wait => exact retransmits_of_wait place (h.flagged (Or.inl place) nonempty)
  | blocked =>
      have flag := h.flagged (Or.inr place) nonempty
      have next : s.step recipients maxSendingIntervalMillis .notifyAll =
          some { s with place := .wait, notifying := s.notifying - 1 } := by
        rw [SendingThread.step, if_pos (h.notified place flag), SendingThread.wakeUp, place]
        rfl
      exact .of_step (Or.inr rfl) next rfl rfl (retransmits_of_wait rfl flag)
  | send => exact retransmits_of_send place
  | sleep millis =>
      have next : s.step recipients maxSendingIntervalMillis .run =
          some { s with place := .test } := by
        rw [SendingThread.step, SendingThread.run, place]
      exact .of_step (Or.inl rfl) next rfl rfl (retransmits_of_test rfl nonempty)

/-! ## The theorem -/

structure NoLostWakeup (recipients : List Host) (maxSendingIntervalMillis : ℕ)
    (s : SendingThread T Host) : Prop where
  empty : s.place = .blocked → s.queueContainsData = false → s.sender.msgList = []
  /-- A blocked thread with a message to send is about to be notified, and will find the flag. -/
  notified : s.place = .blocked → s.sender.msgList ≠ [] →
    s.queueContainsData = true ∧ 0 < s.notifying
  retransmits : s.sender.msgList ≠ [] → Retransmits recipients maxSendingIntervalMillis s
  bounded : ∀ millis, s.place = .sleep millis → millis ≤ max 200 maxSendingIntervalMillis

/-- **No lost wakeup.**  In every interleaving with calls of `queueMsg` and `removeRecipient`. -/
theorem no_lost_wakeup (reach : Reach (step recipients maxSendingIntervalMillis) Always
      ({} : SendingThread T Host) s) :
    NoLostWakeup recipients maxSendingIntervalMillis s := by
  have alert : Alert maxSendingIntervalMillis s :=
    reach.invariant alert_init fun _ _ _ before _ taken => before.step taken
  refine ⟨fun place clear => ?_, fun place nonempty => ?_, alert.retransmits, alert.bounded⟩
  · by_contra nonempty
    have flag := alert.flagged (Or.inr place) nonempty
    rw [clear] at flag
    cases flag
  · have flag := alert.flagged (Or.inr place) nonempty
    exact ⟨flag, alert.notified place flag⟩

/-- A message is queued for a thread that is blocked. -/
def queuedBlocked : List (Event DataMessage Bool) :=
  [.run, .run, .queueMsg ⟨1, 1, 1, 7⟩]

theorem queuedBlocked_through :
    (replay (step [false, true] 4000) {} queuedBlocked).isSome = true := rfl

theorem no_lost_wakeup_queuedBlocked : NoLostWakeup [false, true] 4000
    ((replay (step [false, true] 4000) {} queuedBlocked).get queuedBlocked_through) :=
  no_lost_wakeup (.of_isSome (allowedAlong_always _ _) queuedBlocked_through)

end SendingThread

end GroupComm.Lab1
