import GroupComm.Library.Transition
import GroupComm.Lab1.MulticastService

/-!
# The multicast over a UDP network

Every host of the hostfile runs one `MulticastService`.  A channel from one host to another
holds the datagrams in flight, oldest first.  The network may take a datagram from any place
of a channel, leave a copy behind when it delivers one, and lose any datagram; `Ordered`
singles out the runs in which it neither reorders nor duplicates what one host sends to
another.

A process whose handler throws stops: it handles and sends nothing from then on, and the
datagram that made it throw is gone.

`delivered`, `multicasts`, `accepted` and `finals` are logs that no step reads: the calls of
the delivery callback, the messages given to `multicast`, the `DataMessage`s that were new to
a hold-back queue (with the sequence number proposed for them) and the `SeqMessage`s that were
queued.
-/

namespace GroupComm.Lab1

open Transition

/-- `addToQueue` accepted a message at a host, which proposed a number for it. -/
structure Acceptance (Host : Type) where
  host : Host
  ident : MsgIdentifier
  proposedSeq : UInt32
  deriving DecidableEq

structure System (Host : Type) where
  service : Host → MulticastService Host
  channel : Host → Host → List Packet
  stopped : Host → Bool
  delivered : Host → List DataMessage
  multicasts : Host → List DataMessage
  accepted : List (Acceptance Host)
  finals : List SeqMessage

inductive Event (Host : Type) where
  /-- `multicast(data)` is called at `p`. -/
  | multicast (p : Host) (data : UInt32)
  /-- The sending thread of `dataMsgSender` at `p` sends its `i`-th message to `recipient`. -/
  | sendData (p : Host) (i : Nat) (recipient : Host)
  /-- The sending thread of `seqMsgSender` at `p` sends its `i`-th message to `recipient`. -/
  | sendSeq (p : Host) (i : Nat) (recipient : Host)
  /-- `dst` handles the `i`-th datagram on its way from `src`; with `copy` the network
  delivers a duplicate of it and the datagram stays in flight. -/
  | receive (src dst : Host) (i : Nat) (copy : Bool)
  /-- The `i`-th datagram from `src` to `dst` is lost. -/
  | lose (src dst : Host) (i : Nat)

namespace System

variable {Host : Type} [DecidableEq Host] (D : Deployment Host)

/-- All services as constructed, nothing in flight. -/
def initial (Host : Type) : System Host where
  service _ := {}
  channel _ _ := []
  stopped _ := false
  delivered _ := []
  multicasts _ := []
  accepted := []
  finals := []

/-- Puts datagrams from `p` on their channels. -/
def post (s : System Host) (p : Host) (sent : List (Host × Packet)) : System Host :=
  { s with
    channel := fun a b =>
      if a = p then s.channel a b ++ (sent.filter fun x => x.1 = b).map (·.2)
      else s.channel a b }

/-- Replaces one channel. -/
def setChannel (s : System Host) (src dst : Host) (l : List Packet) : System Host :=
  { s with channel := fun a b => if a = src ∧ b = dst then l else s.channel a b }

/-- The state after a handler of `p` has ended with `o`. -/
def commit (s : System Host) (p : Host) (o : Outcome Host) : System Host :=
  post
    { s with
      service := Function.update s.service p o.service
      delivered := Function.update s.delivered p (s.delivered p ++ o.delivered)
      accepted := s.accepted ++ o.accepted.map fun x => ⟨p, x.1, x.2⟩
      finals := s.finals ++ o.queued }
    p o.sent

/-- Whether a process is there to take a step. -/
def running (s : System Host) (p : Host) : Prop := p ∈ D.hostnames ∧ s.stopped p = false

instance (s : System Host) (p : Host) : Decidable (s.running D p) :=
  inferInstanceAs (Decidable (_ ∧ _))

def step (s : System Host) : Event Host → Option (System Host)
  | .multicast p data =>
      if s.running D p then
        some
          { s with
            service := Function.update s.service p ((s.service p).multicast D p data)
            multicasts := Function.update s.multicasts p
              (s.multicasts p ++ [(s.service p).createDataMessage D p data]) }
      else none
  | .sendData p i recipient =>
      match (s.service p).dataMsgSender.msgList[i]? with
      | some holder =>
          if s.running D p ∧ recipient ∈ holder.recipients then
            some (s.post p [(recipient, .data holder.orgMsg)])
          else none
      | none => none
  | .sendSeq p i recipient =>
      match (s.service p).seqMsgSender.msgList[i]? with
      | some holder =>
          if s.running D p ∧ recipient ∈ holder.recipients then
            some (s.post p [(recipient, .seq holder.orgMsg)])
          else none
      | none => none
  | .receive src dst i copy =>
      match (s.channel src dst)[i]? with
      | some packet =>
          if s.running D dst then
            let s := if copy then s else s.setChannel src dst ((s.channel src dst).eraseIdx i)
            match (s.service dst).processPacket D dst packet with
            | some o => some (s.commit dst o)
            | none => some { s with stopped := Function.update s.stopped dst true }
          else none
      | none => none
  | .lose src dst i =>
      match (s.channel src dst)[i]? with
      | some _ => some (s.setChannel src dst ((s.channel src dst).eraseIdx i))
      | none => none

/-- The network neither reorders nor duplicates: a channel is read from its front, once. -/
def Ordered (_ : System Host) : Event Host → Prop
  | .receive _ _ i copy => i = 0 ∧ copy = false
  | _ => True

instance (s : System Host) : ∀ e, Decidable (s.Ordered e)
  | .receive _ _ _ _ => inferInstanceAs (Decidable (_ ∧ _))
  | .multicast _ _ => .isTrue trivial
  | .sendData _ _ _ => .isTrue trivial
  | .sendSeq _ _ _ => .isTrue trivial
  | .lose _ _ _ => .isTrue trivial

/-- The states that any schedule of the processes and the network leads to. -/
abbrev Reachable (s : System Host) : Prop :=
  Reach (step D) Always (initial Host) s

/-! ## What changes and what does not -/

variable {s : System Host} {p : Host} {o : Outcome Host}

@[simp] theorem post_service (sent : List (Host × Packet)) :
    (s.post p sent).service = s.service := rfl

@[simp] theorem post_delivered (sent : List (Host × Packet)) :
    (s.post p sent).delivered = s.delivered := rfl

@[simp] theorem post_multicasts (sent : List (Host × Packet)) :
    (s.post p sent).multicasts = s.multicasts := rfl

@[simp] theorem post_accepted (sent : List (Host × Packet)) :
    (s.post p sent).accepted = s.accepted := rfl

@[simp] theorem post_finals (sent : List (Host × Packet)) :
    (s.post p sent).finals = s.finals := rfl

theorem mem_channel_post {sent : List (Host × Packet)} {a b : Host} {packet : Packet} :
    packet ∈ (s.post p sent).channel a b ↔
      packet ∈ s.channel a b ∨ a = p ∧ (b, packet) ∈ sent := by
  unfold post
  by_cases same : a = p
  · simp [same]
  · simp [same]

@[simp] theorem commit_service_self : (s.commit p o).service p = o.service := by
  simp [commit]

theorem commit_service_of_ne {q : Host} (ne : q ≠ p) :
    (s.commit p o).service q = s.service q := by
  simp [commit, ne]

@[simp] theorem commit_delivered_self :
    (s.commit p o).delivered p = s.delivered p ++ o.delivered := by
  simp [commit]

theorem commit_delivered_of_ne {q : Host} (ne : q ≠ p) :
    (s.commit p o).delivered q = s.delivered q := by
  simp [commit, ne]

@[simp] theorem commit_multicasts : (s.commit p o).multicasts = s.multicasts := rfl

@[simp] theorem commit_accepted :
    (s.commit p o).accepted = s.accepted ++ o.accepted.map fun x => ⟨p, x.1, x.2⟩ := rfl

@[simp] theorem commit_finals : (s.commit p o).finals = s.finals ++ o.queued := rfl

theorem mem_channel_commit {a b : Host} {packet : Packet} :
    packet ∈ (s.commit p o).channel a b ↔
      packet ∈ s.channel a b ∨ a = p ∧ (b, packet) ∈ o.sent :=
  mem_channel_post

theorem mem_channel_setChannel {src dst a b : Host} {l : List Packet} {packet : Packet}
    (mem : packet ∈ (s.setChannel src dst l).channel a b) (sub : l ⊆ s.channel src dst) :
    packet ∈ s.channel a b := by
  simp only [setChannel] at mem
  split at mem
  · rename_i same
    rw [same.1, same.2]
    exact sub mem
  · exact mem

/-! ## The five kinds of step -/

variable {D}

theorem step_multicast {s s' : System Host} {p : Host} {data : UInt32}
    (taken : s.step D (.multicast p data) = some s') :
    s.running D p ∧
      s' = { s with
        service := Function.update s.service p ((s.service p).multicast D p data)
        multicasts := Function.update s.multicasts p
          (s.multicasts p ++ [(s.service p).createDataMessage D p data]) } := by
  simp only [step] at taken
  split at taken
  · rename_i guard
    cases taken
    exact ⟨guard, rfl⟩
  · cases taken

theorem step_sendData {s s' : System Host} {p recipient : Host} {i : Nat}
    (taken : s.step D (.sendData p i recipient) = some s') :
    s.running D p ∧ ∃ holder ∈ (s.service p).dataMsgSender.msgList,
      recipient ∈ holder.recipients ∧ s' = s.post p [(recipient, .data holder.orgMsg)] := by
  simp only [step] at taken
  split at taken
  · rename_i holder found
    split at taken
    · rename_i guard
      cases taken
      exact ⟨guard.1, holder, List.mem_of_getElem? found, guard.2, rfl⟩
    · cases taken
  · cases taken

theorem step_sendSeq {s s' : System Host} {p recipient : Host} {i : Nat}
    (taken : s.step D (.sendSeq p i recipient) = some s') :
    s.running D p ∧ ∃ holder ∈ (s.service p).seqMsgSender.msgList,
      recipient ∈ holder.recipients ∧ s' = s.post p [(recipient, .seq holder.orgMsg)] := by
  simp only [step] at taken
  split at taken
  · rename_i holder found
    split at taken
    · rename_i guard
      cases taken
      exact ⟨guard.1, holder, List.mem_of_getElem? found, guard.2, rfl⟩
    · cases taken
  · cases taken

/-- What is left on a channel after its `i`-th datagram has been handled. -/
def leftover (l : List Packet) (i : Nat) (copy : Bool) : List Packet :=
  if copy then l else l.eraseIdx i

theorem leftover_subset (l : List Packet) (i : Nat) (copy : Bool) : leftover l i copy ⊆ l := by
  cases copy
  · exact List.eraseIdx_subset
  · exact List.Subset.refl l

theorem setChannel_self (s : System Host) (src dst : Host) :
    s.setChannel src dst (s.channel src dst) = s := by
  unfold setChannel
  congr
  funext a b
  split
  · rename_i same
    rw [same.1, same.2]
  · rfl

theorem step_receive {s s' : System Host} {src dst : Host} {i : Nat} {copy : Bool}
    (taken : s.step D (.receive src dst i copy) = some s') :
    s.running D dst ∧ ∃ packet, (s.channel src dst)[i]? = some packet ∧
      ((∃ o, (s.service dst).processPacket D dst packet = some o ∧
          s' = (s.setChannel src dst (leftover (s.channel src dst) i copy)).commit dst o) ∨
        ((s.service dst).processPacket D dst packet = none ∧
          s' = { s.setChannel src dst (leftover (s.channel src dst) i copy) with
            stopped := Function.update s.stopped dst true })) := by
  simp only [step] at taken
  split at taken
  · rename_i packet found
    split at taken
    · rename_i guard
      refine ⟨guard, packet, found, ?_⟩
      have shape : (if copy = true then s
          else s.setChannel src dst ((s.channel src dst).eraseIdx i)) =
          s.setChannel src dst (leftover (s.channel src dst) i copy) := by
        cases copy
        · rfl
        · simp [leftover, setChannel_self]
      rw [shape] at taken
      split at taken
      · rename_i o handled
        cases taken
        exact Or.inl ⟨o, handled, rfl⟩
      · rename_i handled
        cases taken
        exact Or.inr ⟨handled, rfl⟩
    · cases taken
  · cases taken

/-- The state once a datagram has been taken from its channel. -/
theorem step_receive_some {s : System Host} {src dst : Host} {i : Nat} {copy : Bool} {packet : Packet}
    {o : Outcome Host} (found : (s.channel src dst)[i]? = some packet) (running : s.running D dst)
    (handled : (s.service dst).processPacket D dst packet = some o) :
    s.step D (.receive src dst i copy) =
      some ((s.setChannel src dst (leftover (s.channel src dst) i copy)).commit dst o) := by
  cases copy with
  | true =>
      rw [leftover, if_pos rfl, setChannel_self]
      simp [step, found, running, handled]
  | false =>
      have handled' : ((s.setChannel src dst ((s.channel src dst).eraseIdx i)).service
          dst).processPacket D dst packet = some o := handled
      simp [step, found, running, handled', leftover]

theorem step_receive_none {s : System Host} {src dst : Host} {i : Nat} {copy : Bool} {packet : Packet}
    (found : (s.channel src dst)[i]? = some packet) (running : s.running D dst)
    (thrown : (s.service dst).processPacket D dst packet = none) :
    s.step D (.receive src dst i copy) =
      some { s.setChannel src dst (leftover (s.channel src dst) i copy) with
        stopped := Function.update s.stopped dst true } := by
  cases copy with
  | true =>
      rw [leftover, if_pos rfl, setChannel_self]
      simp [step, found, running, thrown]
  | false =>
      have thrown' : ((s.setChannel src dst ((s.channel src dst).eraseIdx i)).service
          dst).processPacket D dst packet = none := thrown
      simp [step, found, running, thrown', leftover]
      rfl

theorem step_lose {s s' : System Host} {src dst : Host} {i : Nat}
    (taken : s.step D (.lose src dst i) = some s') :
    s' = s.setChannel src dst ((s.channel src dst).eraseIdx i) := by
  simp only [step] at taken
  split at taken <;> cases taken
  rfl

end System

/-- A deployment of two hosts, which has the identifiers 1 and 2. -/
def twoHosts : Deployment Bool where
  hostnames := [false, true]
  nodup := by decide
  small := by decide
  sort := .insertion PendingMsg.key PendingMsg.keyedBy_key

end GroupComm.Lab1
