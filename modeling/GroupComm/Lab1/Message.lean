import Mathlib.Data.List.Nodup
import Mathlib.Data.List.Perm.Basic

/-!
# Messages and process identifiers of the multicast

The fixed-layout messages of `message.h`, the pair that identifies a multicast message, and
the numbering of the hosts: the process identifier of a host is its position in the hostfile,
counted from one.
-/

namespace GroupComm.Lab1

/-- The codes of `enum MessageType`. -/
inductive MessageType where
  | Data | Ack | Seq | SeqAck | Marker
  deriving DecidableEq, Repr

def MessageType.code : MessageType → UInt32
  | .Data => 1
  | .Ack => 2
  | .Seq => 3
  | .SeqAck => 4
  | .Marker => 5

structure DataMessage where
  type : UInt32
  sender : UInt32
  msgId : UInt32
  data : UInt32
  deriving DecidableEq, Repr

structure AckMessage where
  type : UInt32
  sender : UInt32
  msgId : UInt32
  proposedSeq : UInt32
  proposer : UInt32
  deriving DecidableEq, Repr

structure SeqMessage where
  type : UInt32
  sender : UInt32
  msgId : UInt32
  finalSeq : UInt32
  finalSeqProposer : UInt32
  deriving DecidableEq, Repr

structure SeqAckMessage where
  type : UInt32
  sender : UInt32
  msgId : UInt32
  ackSender : UInt32
  deriving DecidableEq, Repr

/-- `MsgIdentifier`: a multicast message is known by its sender and the sender's counter. -/
structure MsgIdentifier where
  msgId : UInt32
  sender : UInt32
  deriving DecidableEq, Repr

def DataMessage.ident (m : DataMessage) : MsgIdentifier := ⟨m.msgId, m.sender⟩
def AckMessage.ident (m : AckMessage) : MsgIdentifier := ⟨m.msgId, m.sender⟩
def SeqMessage.ident (m : SeqMessage) : MsgIdentifier := ⟨m.msgId, m.sender⟩
def SeqAckMessage.ident (m : SeqAckMessage) : MsgIdentifier := ⟨m.msgId, m.sender⟩

/-- A datagram of the multicast.  The receiver switches on the type word, which is the
constructor here. -/
inductive Packet where
  | data (m : DataMessage)
  | ack (m : AckMessage)
  | seq (m : SeqMessage)
  | seqAck (m : SeqAckMessage)
  deriving DecidableEq, Repr

/-- A `uint32_t` counter that does not wrap. -/
theorem toNat_add_one {x : UInt32} (noWrap : x.toNat + 1 < UInt32.size) :
    (x + 1).toNat = x.toNat + 1 := by
  rw [UInt32.toNat_add, UInt32.toNat_one]
  exact Nat.mod_eq_of_lt noWrap

/-- The hosts of a hostfile, as `readHostFile` returns them: without repetitions.  Host names
are only compared for equality, so any type will do for them.  Identifiers are `uint32_t`,
which bounds the length. -/
structure Hostfile (Host : Type) where
  hostnames : List Host
  nodup : hostnames.Nodup
  small : hostnames.length < UInt32.size

namespace Hostfile

variable {Host : Type} [DecidableEq Host] (F : Hostfile Host)

/-- `Utils::getProcessIdentifier`. -/
def processIdentifier (hostname : Host) : UInt32 :=
  UInt32.ofNat (F.hostnames.idxOf hostname + 1)

/-- `recipientIdMap`, which `main` fills with one entry for each host. -/
def recipientIdMap (id : UInt32) : Option Host :=
  F.hostnames.find? fun hostname => F.processIdentifier hostname = id

variable {F}

theorem toNat_processIdentifier {h : Host} (mem : h ∈ F.hostnames) :
    (F.processIdentifier h).toNat = F.hostnames.idxOf h + 1 := by
  have small := F.small
  have index := List.idxOf_lt_length_iff.mpr mem
  rw [processIdentifier, UInt32.toNat_ofNat_of_lt']
  show F.hostnames.idxOf h + 1 < UInt32.size
  omega

theorem processIdentifier_inj {h h' : Host} (mem : h ∈ F.hostnames) (mem' : h' ∈ F.hostnames)
    (eq : F.processIdentifier h = F.processIdentifier h') : h = h' := by
  have index := congrArg UInt32.toNat eq
  rw [toNat_processIdentifier mem, toNat_processIdentifier mem'] at index
  exact (List.idxOf_inj mem).mp (Nat.succ.inj index)

theorem recipientIdMap_processIdentifier {h : Host} (mem : h ∈ F.hostnames) :
    F.recipientIdMap (F.processIdentifier h) = some h := by
  rw [recipientIdMap, List.find?_eq_some_iff_append]
  obtain ⟨before, after, split⟩ := List.append_of_mem mem
  refine ⟨by simp, before, after, split, fun g earlier => ?_⟩
  have gmem : g ∈ F.hostnames := by simp [split, earlier]
  have distinct : g ≠ h := by
    have nodup := F.nodup
    rw [split, List.nodup_append] at nodup
    exact nodup.2.2 g earlier h (by simp)
  simpa using fun eq => distinct (processIdentifier_inj gmem mem eq)

theorem recipientIdMap_of_eq {id : UInt32} {h : Host} (mem : h ∈ F.hostnames)
    (eq : id = F.processIdentifier h) : F.recipientIdMap id = some h := by
  rw [eq]
  exact recipientIdMap_processIdentifier mem

theorem recipientIdMap_eq_some {id : UInt32} {h : Host} (found : F.recipientIdMap id = some h) :
    h ∈ F.hostnames ∧ F.processIdentifier h = id :=
  ⟨List.mem_of_find?_eq_some found, by simpa using List.find?_some found⟩

end Hostfile

end GroupComm.Lab1
