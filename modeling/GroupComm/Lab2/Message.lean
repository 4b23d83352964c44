import Mathlib.Order.Basic
import Mathlib.Order.Defs.LinearOrder

/-!
# Messages of the membership service

The fixed-layout messages of `message.h`.  `PeerId` is the identifier of a host, its position
in the hostfile counted from one.

`NewViewMsg` carries its members as a list: the array of ten entries and the count of those
in use.  A hostfile has at most ten hosts, so nothing is cut off.  The heartbeat is not here:
the failure detector only passes on whose heartbeat has arrived.
-/

namespace GroupComm.Lab2

abbrev RequestId := UInt32
abbrev ViewId := UInt32
abbrev PeerId := UInt32

/-- The order of `uint32_t`. -/
instance linearOrderUInt32 : LinearOrder UInt32 where
  le_refl := UInt32.le_refl
  le_trans := fun _ _ _ => UInt32.le_trans
  le_antisymm := fun _ _ => UInt32.le_antisymm
  le_total := UInt32.le_total
  lt_iff_le_not_ge a b := by
    rw [UInt32.not_le]
    exact ⟨fun less => ⟨UInt32.le_of_lt less, less⟩, And.right⟩
  toDecidableLE := fun a b => UInt32.decLe a b
  toDecidableLT := fun a b => UInt32.decLt a b
  min_def _ _ := rfl
  max_def _ _ := rfl

/-- `enum MsgTypeEnum`. -/
inductive MsgTypeEnum where
  | REQUEST | OK | NEW_VIEW | NEW_LEADER | HEARTBEAT
  deriving DecidableEq, Repr

def MsgTypeEnum.code : MsgTypeEnum → UInt32
  | .REQUEST => 1
  | .OK => 2
  | .NEW_VIEW => 3
  | .NEW_LEADER => 4
  | .HEARTBEAT => 5

/-- `enum OperationTypeEnum`. -/
inductive OperationTypeEnum where
  | NOTHING | ADD | DEL | PENDING
  deriving DecidableEq, Repr

structure RequestMsg where
  msgType : UInt32
  requestId : RequestId
  currentViewId : ViewId
  operationType : OperationTypeEnum
  peerId : PeerId
  deriving DecidableEq, Repr

structure OkMsg where
  msgType : UInt32
  requestId : RequestId
  currentViewId : ViewId
  deriving DecidableEq, Repr

structure NewViewMsg where
  msgType : UInt32
  newViewId : ViewId
  members : List PeerId
  deriving DecidableEq, Repr

structure NewLeaderMsg where
  msgType : UInt32
  requestId : RequestId
  currentViewId : ViewId
  operationType : OperationTypeEnum
  deriving DecidableEq, Repr

/-- A message on a connection.  The receiver switches on the type word, which is the
constructor here. -/
inductive Msg where
  | request (m : RequestMsg)
  | ok (m : OkMsg)
  | newView (m : NewViewMsg)
  | newLeader (m : NewLeaderMsg)
  deriving DecidableEq, Repr

end GroupComm.Lab2
