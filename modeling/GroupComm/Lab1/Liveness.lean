import Mathlib.Data.Finite.Prod
import Mathlib.Data.Finite.Sum
import Mathlib.Data.Set.Finite.Lattice
import GroupComm.Lab1.Quiescence
import GroupComm.Library.Fairness

/-!
# Every multicast is delivered

A network that loses datagrams, but does not lose every copy of one that is sent over and over
(`Fair`), and that neither reorders nor duplicates: along every such run all messages that are
ever multicast are delivered by every host, exactly once, and nothing is left to send
(`eventually_finished`), provided that no host calls `multicast` 2^32 times.

* `sending_stops`: a `DataMessage` or `SeqMessage` is repeated until the answer has arrived, by
  the rule `Exchange.ends_often`, once for each of the two senders.
* The calls of `multicast` are bounded, so there is a last one.  From then on the
  `DataMessage`s that are owed only get fewer, and when there are none, the `SeqMessage`s.
-/

namespace GroupComm.Lab1

open Filter Transition

theorem finite_uInt32 : Finite UInt32 :=
  Finite.of_injective UInt32.toFin fun _ _ same => UInt32.toFin_inj.mp same

/-- There are finitely many datagrams. -/
theorem finite_packet : Finite Packet := by
  have words := finite_uInt32
  let packet : (UInt32 × UInt32 × UInt32 × UInt32) ⊕
      (UInt32 × UInt32 × UInt32 × UInt32 × UInt32) ⊕
      (UInt32 × UInt32 × UInt32 × UInt32 × UInt32) ⊕
      (UInt32 × UInt32 × UInt32 × UInt32) → Packet
    | .inl w => .data ⟨w.1, w.2.1, w.2.2.1, w.2.2.2⟩
    | .inr (.inl w) => .ack ⟨w.1, w.2.1, w.2.2.1, w.2.2.2.1, w.2.2.2.2⟩
    | .inr (.inr (.inl w)) => .seq ⟨w.1, w.2.1, w.2.2.1, w.2.2.2.1, w.2.2.2.2⟩
    | .inr (.inr (.inr w)) => .seqAck ⟨w.1, w.2.1, w.2.2.1, w.2.2.2⟩
  refine Finite.of_surjective packet ?_
  rintro (m | m | m | m)
  · exact ⟨.inl (m.type, m.sender, m.msgId, m.data), rfl⟩
  · exact ⟨.inr (.inl (m.type, m.sender, m.msgId, m.proposedSeq, m.proposer)), rfl⟩
  · exact ⟨.inr (.inr (.inl (m.type, m.sender, m.msgId, m.finalSeq, m.finalSeqProposer))), rfl⟩
  · exact ⟨.inr (.inr (.inr (m.type, m.sender, m.msgId, m.ackSender))), rfl⟩

namespace MulticastService

variable {Host : Type} [DecidableEq Host] {D : Deployment Host} {self : Host}
  {s : MulticastService Host} {o : Outcome Host}

/-! ## What the handlers do to the senders -/

theorem senders_of_processDataMsg {m : DataMessage}
    (handled : s.processDataMsg D self m = some o) :
    o.service.dataMsgSender = s.dataMsgSender ∧ o.service.seqMsgSender = s.seqMsgSender := by
  simp only [processDataMsg, Option.bind_eq_bind, Option.bind_eq_some_iff,
    Option.some.injEq] at handled
  obtain ⟨_, _, _, _, rfl⟩ := handled
  exact ⟨rfl, rfl⟩

theorem senders_of_processSeqMsg {m : SeqMessage}
    (handled : s.processSeqMsg D self m = some o) :
    o.service.dataMsgSender = s.dataMsgSender ∧ o.service.seqMsgSender = s.seqMsgSender := by
  simp only [processSeqMsg, Option.bind_eq_bind, Option.bind_eq_some_iff,
    Option.some.injEq] at handled
  obtain ⟨_, _, rfl⟩ := handled
  exact ⟨rfl, rfl⟩

theorem senders_of_processSeqAckMsg {m : SeqAckMessage} {recipient : Host}
    (known : D.recipientIdMap m.ackSender = some recipient)
    (handled : s.processSeqAckMsg D m = some o) :
    o.service.dataMsgSender = s.dataMsgSender ∧
      o.service.seqMsgSender = (s.seqMsgSender.removeRecipient m.msgId recipient).2 := by
  rw [processSeqAckMsg_eq known, Option.some.injEq] at handled
  subst handled
  exact ⟨rfl, rfl⟩

theorem dataMsgSender_of_processAckMsg {m : AckMessage} {recipient : Host}
    (known : D.recipientIdMap m.proposer = some recipient)
    (handled : s.processAckMsg D m = some o) :
    o.service.dataMsgSender = (s.dataMsgSender.removeRecipient m.msgId recipient).2 := by
  simp only [processAckMsg, known, Option.bind_eq_bind, Option.bind_some] at handled
  split at handled
  · split at handled
    · obtain ⟨_, _, eq⟩ := Option.bind_eq_some_iff.mp handled
      cases eq
      rfl
    · cases handled
      rfl
  · cases handled
    rfl

/-- A `SeqMessage` is queued only with an answer that was awaited. -/
theorem seqMsgSender_of_processAckMsg {m : AckMessage} {recipient : Host}
    (known : D.recipientIdMap m.proposer = some recipient)
    (notOwed : ¬ s.dataMsgSender.Owes m.msgId recipient)
    (handled : s.processAckMsg D m = some o) : o.service.seqMsgSender = s.seqMsgSender := by
  rcases s.processAckMsg_cases known with ⟨_, eq⟩ | ⟨removed, _⟩
  · rw [eq, Option.some.injEq] at handled
    rw [← handled]
  · exact (notOwed (ContinuousMsgSender.owes_of_removed removed)).elim

end MulticastService

namespace ContinuousMsgSender

variable {T Host : Type} [HasMsgId T]

theorem finite_owes (s : ContinuousMsgSender T Host) :
    { pair : UInt32 × Host | s.Owes pair.1 pair.2 }.Finite := by
  have holders : { holder | holder ∈ s.msgList }.Finite := List.finite_toSet _
  refine (holders.biUnion fun holder _ => (holder.recipients.finite_toSet.image fun r =>
    (HasMsgId.msgId holder.orgMsg, r))).subset ?_
  rintro ⟨id, r⟩ ⟨holder, mem, rfl, owed⟩
  exact Set.mem_biUnion mem ⟨r, owed, rfl⟩

/-- A well-formed sender that owes nothing has nothing to send. -/
theorem WellFormed.msgList_eq_nil {s : ContinuousMsgSender T Host} (wf : s.WellFormed)
    (none : ∀ id r, ¬ s.Owes id r) : s.msgList = [] := by
  refine List.eq_nil_iff_forall_not_mem.mpr fun holder mem => ?_
  obtain ⟨r, owed⟩ := wf.exists_owes ⟨holder, mem, rfl⟩
  exact none _ r owed

end ContinuousMsgSender

namespace System

variable {Host : Type} [DecidableEq Host] {D : Deployment Host} {s s' : System Host}

/-! ## Fair runs -/

/-- The datagram that is handled next came from `a` to `b`. -/
def Arrives (s : System Host) (e : Option (Event Host)) (a b : Host) (packet : Packet) : Prop :=
  ∃ i copy, e = some (.receive a b i copy) ∧ (s.channel a b)[i]? = some packet

/-- The sending threads go over their lists again and again, and a datagram that is in flight
again and again arrives again and again. -/
structure Fair (r : Run (step D) Ordered (initial Host)) : Prop where
  sendsData : ∀ p ∈ D.hostnames, ∀ id q,
    (∀ᶠ n in atTop, ((r.state n).service p).dataMsgSender.Owes id q) →
      ∃ᶠ n in atTop, ∃ i holder, r.event n = some (.sendData p i q) ∧
        ((r.state n).service p).dataMsgSender.msgList[i]? = some holder ∧
        holder.orgMsg.msgId = id
  sendsSeq : ∀ p ∈ D.hostnames, ∀ id q,
    (∀ᶠ n in atTop, ((r.state n).service p).seqMsgSender.Owes id q) →
      ∃ᶠ n in atTop, ∃ i holder, r.event n = some (.sendSeq p i q) ∧
        ((r.state n).service p).seqMsgSender.msgList[i]? = some holder ∧
        holder.orgMsg.msgId = id
  delivers : ∀ a b packet, (∃ᶠ n in atTop, packet ∈ (r.state n).channel a b) →
    ∃ᶠ n in atTop, (r.state n).Arrives (r.event n) a b packet

variable {r : Run (System.step D) Ordered (initial Host)}

theorem sound_of_run (r : Run (step D) Ordered (initial Host)) (n : ℕ) : Sound D (r.state n) :=
  sound_of_reachable (r.reach n).always

theorem identified_of_run (few : ∀ n, (r.state n).FewMulticasts D) (n : ℕ) :
    Identified D (r.state n) :=
  identified_of_reachable (r.reach n).always (few n)

/-- A datagram that arrives is handled: no handler throws. -/
theorem handled_of_arrives (few : ∀ n, (r.state n).FewMulticasts D) {n : ℕ} {a b : Host}
    {packet : Packet}
    (arrives : (r.state n).Arrives (r.event n) a b packet) :
    a ∈ D.hostnames ∧ b ∈ D.hostnames ∧ (r.state n).PacketSound D a b packet ∧
      ∃ l o, ((r.state n).service b).processPacket D b packet = some o ∧
        r.state (n + 1) = ((r.state n).setChannel a b l).commit b o := by
  obtain ⟨i, copy, event, found⟩ := arrives
  obtain ⟨ha, hb, holds⟩ := (sound_of_run r n).packets a b packet (List.mem_of_getElem? found)
  refine ⟨ha, hb, holds, ?_⟩
  obtain ⟨_, taken⟩ := r.happens n _ event
  obtain ⟨_, packet', found', ⟨o, handled, eq⟩ | ⟨_, eq⟩⟩ := step_receive taken
  · rw [found, Option.some.injEq] at found'
    subst found'
    exact ⟨_, o, handled, eq⟩
  · have running := running_of_ordered (r.reach (n + 1)) (few (n + 1)) b
    rw [eq] at running
    simp at running

/-! ## A message is repeated until it is answered -/

theorem Sound.ack_of_data (sound : Sound D s) {a b : Host} (ha : a ∈ D.hostnames)
    (hb : b ∈ D.hostnames) {m : DataMessage} (multicast : m ∈ s.multicasts a) {o : Outcome Host}
    (handled : (s.service b).processDataMsg D b m = some o) :
    ∃ ack : AckMessage, (a, .ack ack) ∈ o.sent ∧ ack.msgId = m.msgId := by
  have sender := Hostfile.recipientIdMap_of_eq ha ((sound.sender a ha).own m multicast)
  by_cases pending : m.ident ∈ (s.service b).holdBackQueue.pendingMsgSet
  · rw [MulticastService.processDataMsg_of_pending sender pending,
      Option.map_eq_some_iff] at handled
    obtain ⟨ack, found, rfl⟩ := handled
    obtain ⟨same, _⟩ := (sound.receiver b hb).cached _ ack found
    exact ⟨ack, List.mem_singleton_self _, congrArg MsgIdentifier.msgId same⟩
  · rw [MulticastService.processDataMsg_of_new sender pending, Option.some.injEq] at handled
    subst handled
    exact ⟨_, List.mem_singleton_self _, rfl⟩

/-- What arrives of a class of datagrams: there are only finitely many. -/
theorem Fair.delivers_some (fair : Fair r) {a b : Host} {P : Packet → Prop}
    (often : ∃ᶠ n in atTop, ∃ packet, P packet ∧ packet ∈ (r.state n).channel a b) :
    ∃ᶠ n in atTop, ∃ packet, P packet ∧ (r.state n).Arrives (r.event n) a b packet := by
  have := finite_packet
  obtain ⟨packet, often⟩ := frequently_exists.mp often
  obtain ⟨_, holds, _⟩ := often.exists
  have arrives := fair.delivers a b packet (often.mono fun _ => And.right)
  exact arrives.mono fun _ arrives => ⟨packet, holds, arrives⟩

/-- The `DataMessage` with the identifier `id` and the answers of `q`. -/
theorem Fair.data_exchange (fair : Fair r) (few : ∀ n, (r.state n).FewMulticasts D) {p q : Host}
    (hp : p ∈ D.hostnames) (hq : q ∈ D.hostnames) (id : UInt32) :
    Exchange (fun n => ((r.state n).service p).dataMsgSender.Owes id q)
      (fun n => ∃ packet, (∃ m, packet = .data m ∧ m.msgId = id) ∧
        packet ∈ (r.state n).channel p q)
      (fun n => ∃ packet, (∃ m, packet = .data m ∧ m.msgId = id) ∧
        (r.state n).Arrives (r.event n) p q packet)
      (fun n => ∃ packet, (∃ m, packet = .ack m ∧ m.msgId = id) ∧
        packet ∈ (r.state n).channel q p)
      (fun n => ∃ packet, (∃ m, packet = .ack m ∧ m.msgId = id) ∧
        (r.state n).Arrives (r.event n) q p packet) where
  repeats awaited := by
    refine frequently_of_succ ((fair.sendsData p hp id q awaited).mono ?_)
    rintro n ⟨i, holder, event, found, rfl⟩
    obtain ⟨_, taken⟩ := r.happens n _ event
    simp only [step, found] at taken
    split at taken
    · refine ⟨_, ⟨_, rfl, rfl⟩, ?_⟩
      rw [← Option.some.inj taken]
      exact mem_channel_post.mpr (Or.inr ⟨rfl, List.mem_singleton_self _⟩)
    · cases taken
  arrives := fair.delivers_some
  replies n := by
    rintro ⟨_, ⟨m, rfl, rfl⟩, arrives⟩
    obtain ⟨_, _, multicast, l, o, handled, eq⟩ := handled_of_arrives few arrives
    obtain ⟨ack, sent, same⟩ := (sound_of_run r n).ack_of_data hp hq multicast handled
    refine ⟨.ack ack, ⟨ack, rfl, same⟩, ?_⟩
    rw [eq]
    exact mem_channel_commit.mpr (Or.inr ⟨rfl, sent⟩)
  returns := fair.delivers_some
  ends n := by
    rintro ⟨_, ⟨m, rfl, rfl⟩, arrives⟩ owed
    obtain ⟨_, _, ⟨proposer, _, _⟩, l, o, handled, eq⟩ := handled_of_arrives few arrives
    have known := Hostfile.recipientIdMap_of_eq hq proposer
    have wf := ((identified_of_run few n).numbered p hp).dataWf
    rw [eq, commit_service_self, MulticastService.dataMsgSender_of_processAckMsg known handled,
      wf.owes_removeRecipient] at owed
    exact owed.2 ⟨rfl, rfl⟩

/-- The `SeqMessage` of the message `id` and the answers of `q`. -/
theorem Fair.seq_exchange (fair : Fair r) (few : ∀ n, (r.state n).FewMulticasts D) {p q : Host}
    (hp : p ∈ D.hostnames) (hq : q ∈ D.hostnames) (id : UInt32) :
    Exchange (fun n => ((r.state n).service p).seqMsgSender.Owes id q)
      (fun n => ∃ packet, (∃ m, packet = .seq m ∧ m.msgId = id) ∧
        packet ∈ (r.state n).channel p q)
      (fun n => ∃ packet, (∃ m, packet = .seq m ∧ m.msgId = id) ∧
        (r.state n).Arrives (r.event n) p q packet)
      (fun n => ∃ packet, (∃ m, packet = .seqAck m ∧ m.msgId = id) ∧
        packet ∈ (r.state n).channel q p)
      (fun n => ∃ packet, (∃ m, packet = .seqAck m ∧ m.msgId = id) ∧
        (r.state n).Arrives (r.event n) q p packet) where
  repeats awaited := by
    refine frequently_of_succ ((fair.sendsSeq p hp id q awaited).mono ?_)
    rintro n ⟨i, holder, event, found, rfl⟩
    obtain ⟨_, taken⟩ := r.happens n _ event
    simp only [step, found] at taken
    split at taken
    · refine ⟨_, ⟨_, rfl, rfl⟩, ?_⟩
      rw [← Option.some.inj taken]
      exact mem_channel_post.mpr (Or.inr ⟨rfl, List.mem_singleton_self _⟩)
    · cases taken
  arrives := fair.delivers_some
  replies n := by
    rintro ⟨_, ⟨m, rfl, rfl⟩, arrives⟩
    obtain ⟨_, _, ⟨_, sender⟩, l, o, handled, eq⟩ := handled_of_arrives few arrives
    have known := Hostfile.recipientIdMap_of_eq hp sender
    rw [MulticastService.processPacket, MulticastService.processSeqMsg_eq known,
      Option.some.injEq] at handled
    refine ⟨.seqAck (MulticastService.createSeqAckMessage D q m), ⟨_, rfl, rfl⟩, ?_⟩
    rw [eq, ← handled]
    exact mem_channel_commit.mpr (Or.inr ⟨rfl, List.mem_singleton_self _⟩)
  returns := fair.delivers_some
  ends n := by
    rintro ⟨_, ⟨m, rfl, rfl⟩, arrives⟩ owed
    obtain ⟨_, _, ⟨ackSender, _, _⟩, l, o, handled, eq⟩ := handled_of_arrives few arrives
    have known := Hostfile.recipientIdMap_of_eq hq ackSender
    have wf := ((identified_of_run few n).numbered p hp).seqWf
    rw [eq, commit_service_self, (MulticastService.senders_of_processSeqAckMsg known handled).2,
      wf.owes_removeRecipient] at owed
    exact owed.2 ⟨rfl, rfl⟩

/-! ## What is owed -/

/-- What a step does to the two senders of a host. -/
inductive SenderStep (s s' : System Host) (p : Host) : Prop
  | multicast : (s'.multicasts p).length ≠ (s.multicasts p).length → SenderStep s s' p
  | same : (s'.service p).dataMsgSender = (s.service p).dataMsgSender →
    (s'.service p).seqMsgSender = (s.service p).seqMsgSender → SenderStep s s' p
  | ack {id : UInt32} {q : Host} :
    (s'.service p).dataMsgSender = ((s.service p).dataMsgSender.removeRecipient id q).2 →
    (¬ (s.service p).dataMsgSender.Owes id q →
      (s'.service p).seqMsgSender = (s.service p).seqMsgSender) → SenderStep s s' p
  | seqAck {id : UInt32} {q : Host} :
    (s'.service p).dataMsgSender = (s.service p).dataMsgSender →
    (s'.service p).seqMsgSender = ((s.service p).seqMsgSender.removeRecipient id q).2 →
      SenderStep s s' p

theorem senderStep_of_packet {src p : Host} (hsrc : src ∈ D.hostnames) {packet : Packet}
    (holds : s.PacketSound D src p packet)
    {l : List Packet} {o : Outcome Host}
    (handled : (s.service p).processPacket D p packet = some o) :
    SenderStep s ((s.setChannel src p l).commit p o) p := by
  cases packet with
  | data m =>
      obtain ⟨data, seq⟩ := MulticastService.senders_of_processDataMsg handled
      exact .same (by rw [commit_service_self, data]) (by rw [commit_service_self, seq])
  | ack m =>
      have known := Hostfile.recipientIdMap_of_eq hsrc holds.1
      have data : (((s.setChannel src p l).commit p o).service p).dataMsgSender =
          ((s.service p).dataMsgSender.removeRecipient m.msgId src).2 := by
        rw [commit_service_self]
        exact MulticastService.dataMsgSender_of_processAckMsg known handled
      refine .ack data fun notOwed => ?_
      rw [commit_service_self]
      exact MulticastService.seqMsgSender_of_processAckMsg known notOwed handled
  | seq m =>
      obtain ⟨data, seq⟩ := MulticastService.senders_of_processSeqMsg handled
      exact .same (by rw [commit_service_self, data]) (by rw [commit_service_self, seq])
  | seqAck m =>
      obtain ⟨data, seq⟩ := MulticastService.senders_of_processSeqAckMsg
        (Hostfile.recipientIdMap_of_eq hsrc holds.1) handled
      exact .seqAck (by rw [commit_service_self, data]) (by rw [commit_service_self, seq])

theorem Sound.senderStep (sound : Sound D s) {e : Event Host}
    (taken : s.step D e = some s') (p : Host) : SenderStep s s' p := by
  cases e with
  | multicast q data =>
      obtain ⟨_, rfl⟩ := step_multicast taken
      by_cases same : p = q
      · subst same
        exact .multicast (by simp)
      · exact .same (by simp [same]) (by simp [same])
  | sendData q i recipient =>
      obtain ⟨_, _, _, _, rfl⟩ := step_sendData taken
      exact .same rfl rfl
  | sendSeq q i recipient =>
      obtain ⟨_, _, _, _, rfl⟩ := step_sendSeq taken
      exact .same rfl rfl
  | receive src dst i copy =>
      obtain ⟨_, packet, found, ⟨o, handled, rfl⟩ | ⟨_, rfl⟩⟩ := step_receive taken
      · obtain ⟨hsrc, _, holds⟩ := sound.packets src dst packet (List.mem_of_getElem? found)
        by_cases same : p = dst
        · subst same
          exact senderStep_of_packet hsrc holds handled
        · exact .same (by rw [commit_service_of_ne same]; rfl)
            (by rw [commit_service_of_ne same]; rfl)
      · exact .same rfl rfl
  | lose src dst i =>
      rw [step_lose taken]
      exact .same rfl rfl

theorem SenderStep.owes_data {p : Host} (h : SenderStep s s' p)
    (wf : (s.service p).dataMsgSender.WellFormed) (same : s'.multicasts p = s.multicasts p)
    {id : UInt32} {q : Host} (owed : (s'.service p).dataMsgSender.Owes id q) :
    (s.service p).dataMsgSender.Owes id q := by
  cases h with
  | multicast longer => exact (longer (by rw [same])).elim
  | same data _ => exact data ▸ owed
  | ack data _ =>
      rw [data, wf.owes_removeRecipient] at owed
      exact owed.1
  | seqAck data _ => exact data ▸ owed

theorem SenderStep.owes_seq {p : Host} (h : SenderStep s s' p)
    (wf : (s.service p).seqMsgSender.WellFormed) (same : s'.multicasts p = s.multicasts p)
    (none : (s.service p).dataMsgSender.msgList = []) {id : UInt32} {q : Host}
    (owed : (s'.service p).seqMsgSender.Owes id q) : (s.service p).seqMsgSender.Owes id q := by
  cases h with
  | multicast longer => exact (longer (by rw [same])).elim
  | same _ seq => exact seq ▸ owed
  | ack _ seq =>
      rw [seq fun ⟨holder, mem, _⟩ => by simp [none] at mem] at owed
      exact owed
  | seqAck _ seq =>
      rw [seq, wf.owes_removeRecipient] at owed
      exact owed.1

/-! ## The last multicast -/

theorem few_of_later {n k : ℕ} (le : n ≤ k) (few : (r.state k).FewMulticasts D) :
    (r.state n).FewMulticasts D := by
  induction le with
  | refl => exact few
  | @step k _ ih =>
      refine ih ?_
      cases event : r.event k with
      | none => exact r.idle k event ▸ few
      | some e => exact few.of_step (r.happens k e event).2

theorem multicasts_end (r : Run (step D) Ordered (initial Host))
    (few : ∀ n, (r.state n).FewMulticasts D) {p : Host} (hp : p ∈ D.hostnames) :
    ∃ full, ∀ᶠ n in atTop, (r.state n).multicasts p = full := by
  refine eventually_eq_of_prefix (fun n => ?_) fun n => (few n p hp).le
  cases event : r.event n with
  | none => rw [r.idle n event]
  | some e => exact multicasts_grow (r.happens n e event).2 p

theorem Fair.eventually_data_sent (fair : Fair r) (few : ∀ n, (r.state n).FewMulticasts D)
    {p : Host} (hp : p ∈ D.hostnames) :
    ∀ᶠ n in atTop, ((r.state n).service p).dataMsgSender.msgList = [] := by
  obtain ⟨full, settled⟩ := multicasts_end r few hp
  obtain ⟨start, constant⟩ := eventually_atTop.mp settled
  have none := eventually_empty
    (S := fun n => { pair : UInt32 × Host |
      ((r.state n).service p).dataMsgSender.Owes pair.1 pair.2 })
    (((r.state start).service p).dataMsgSender.finite_owes) ?_ ?_
  · refine none.mono fun n none => ?_
    have wf := ((identified_of_run few n).numbered p hp).dataWf
    exact wf.msgList_eq_nil fun id q owed => Set.eq_empty_iff_forall_notMem.mp none (id, q) owed
  · rintro n later ⟨id, q⟩ owed
    cases event : r.event n with
    | none =>
        rw [r.idle n event] at owed
        exact owed
    | some e =>
        have identified := identified_of_run few n
        have same : (r.state (n + 1)).multicasts p = (r.state n).multicasts p := by
          rw [constant n later, constant (n + 1) (Nat.le_succ_of_le later)]
        exact (identified.toSound.senderStep (r.happens n e event).2 p).owes_data
          (identified.numbered p hp).dataWf same owed
  · rintro ⟨id, q⟩
    by_cases hq : q ∈ D.hostnames
    · exact (fair.data_exchange few hp hq id).ends_often
    · refine (Eventually.of_forall fun n => ?_).frequently
      rintro ⟨holder, mem, _, owed⟩
      exact hq ((((sound_of_run r n).sender p hp).dataHeld holder mem).2 q owed)

theorem Fair.eventually_seq_sent (fair : Fair r) (few : ∀ n, (r.state n).FewMulticasts D)
    {p : Host} (hp : p ∈ D.hostnames) :
    ∀ᶠ n in atTop, ((r.state n).service p).seqMsgSender.msgList = [] := by
  obtain ⟨full, settled⟩ := multicasts_end r few hp
  obtain ⟨start, constant⟩ := eventually_atTop.mp (settled.and (fair.eventually_data_sent few hp))
  have none := eventually_empty
    (S := fun n => { pair : UInt32 × Host |
      ((r.state n).service p).seqMsgSender.Owes pair.1 pair.2 })
    (((r.state start).service p).seqMsgSender.finite_owes) ?_ ?_
  · refine none.mono fun n none => ?_
    have wf := ((identified_of_run few n).numbered p hp).seqWf
    exact wf.msgList_eq_nil fun id q owed => Set.eq_empty_iff_forall_notMem.mp none (id, q) owed
  · rintro n later ⟨id, q⟩ owed
    cases event : r.event n with
    | none =>
        rw [r.idle n event] at owed
        exact owed
    | some e =>
        have identified := identified_of_run few n
        obtain ⟨now, dataSent⟩ := constant n later
        have same : (r.state (n + 1)).multicasts p = (r.state n).multicasts p := by
          rw [now, (constant (n + 1) (Nat.le_succ_of_le later)).1]
        exact (identified.toSound.senderStep (r.happens n e event).2 p).owes_seq
          (identified.numbered p hp).seqWf same dataSent owed
  · rintro ⟨id, q⟩
    by_cases hq : q ∈ D.hostnames
    · exact (fair.seq_exchange few hp hq id).ends_often
    · refine (Eventually.of_forall fun n => ?_).frequently
      rintro ⟨holder, mem, _, owed⟩
      exact hq ((((sound_of_run r n).sender p hp).seqHeld holder mem).2 q owed)

/-! ## The end of the run -/

/-- **Liveness.**  Along every fair run in an ordered network, whatever the network loses, there
is a time from which on everything that has been multicast is delivered everywhere, if no host
calls `multicast` 2^32 times. -/
theorem eventually_finished (D : Deployment Host) (r : Run (step D) Ordered (initial Host))
    (few : ∀ n, (r.state n).FewMulticasts D) (fair : Fair r) :
    (∀ᶠ n in atTop, (r.state n).Finished D) ∧
      ∀ n, ∀ q ∈ D.hostnames, ∀ m ∈ (r.state n).multicasts q,
        ∀ᶠ k in atTop, ∀ p ∈ D.hostnames, m ∈ (r.state k).delivered p := by
  have hosts : { p | p ∈ D.hostnames }.Finite := List.finite_toSet _
  have sent : ∀ᶠ n in atTop, ∀ p ∈ { p | p ∈ D.hostnames },
      ((r.state n).service p).dataMsgSender.msgList = [] ∧
        ((r.state n).service p).seqMsgSender.msgList = [] :=
    hosts.eventually_all.mpr fun p hp =>
      (fair.eventually_data_sent few hp).and (fair.eventually_seq_sent few hp)
  have finished : ∀ᶠ n in atTop, (r.state n).Finished D :=
    sent.mono fun n sent => finished_of_sent (r.reach n) (few n) sent
  refine ⟨finished, fun n q hq m multicast => ?_⟩
  filter_upwards [finished, eventually_ge_atTop n] with k done later p hp
  have kept : m ∈ (r.state k).multicasts q := by
    refine Run.stays (r := r) (P := fun s : System Host => m ∈ s.multicasts q) ?_ multicast later
    exact fun k e event mem => (multicasts_grow (r.happens k e event).2 q).subset mem
  exact (done.delivered p hp q hq m kept).1

/-- A run that comes to rest is fair. -/
theorem fair_of_quiescent (rests : ∀ᶠ n in atTop, (r.state n).Quiescent D) : Fair r where
  sendsData p hp id q owed := by
    obtain ⟨n, quiescent, holder, mem, _⟩ := (rests.and owed).exists
    rw [(quiescent.2 p hp).1] at mem
    cases mem
  sendsSeq p hp id q owed := by
    obtain ⟨n, quiescent, holder, mem, _⟩ := (rests.and owed).exists
    rw [(quiescent.2 p hp).2] at mem
    cases mem
  delivers a b packet often := by
    obtain ⟨n, mem, quiescent⟩ := (often.and_eventually rests).exists
    rw [quiescent.1 a b] at mem
    cases mem

end System

theorem allowedAlong_settlingRun :
    allowedAlong (System.step twoHosts) System.Ordered (System.initial Bool) settlingRun := by
  decide +kernel

theorem replay_settlingRun :
    (replay (System.step twoHosts) (System.initial Bool) settlingRun).isSome = true := by
  decide +kernel

/-- `settlingRun`, after which nothing happens. -/
def settling : Run (System.step twoHosts) System.Ordered (System.initial Bool) :=
  .ofReplay settlingRun allowedAlong_settlingRun replay_settlingRun

theorem eventually_finished_settling :
    (∀ᶠ n in atTop, (settling.state n).Finished twoHosts) ∧
      ∀ n, ∀ q ∈ twoHosts.hostnames, ∀ m ∈ (settling.state n).multicasts q,
        ∀ᶠ k in atTop, ∀ p ∈ twoHosts.hostnames, m ∈ (settling.state k).delivered p := by
  have last : ∀ n, settlingRun.length ≤ n → settling.state n = settledState := fun _ later =>
    stateAt_last (Option.some_get _).symm later
  have few : ∀ n, (settling.state n).FewMulticasts twoHosts := by
    intro n
    refine System.few_of_later (le_max_left n settlingRun.length) ?_
    rw [last _ (le_max_right n settlingRun.length)]
    decide +kernel
  refine System.eventually_finished twoHosts settling few (System.fair_of_quiescent ?_)
  have rests : settledState.Quiescent twoHosts := ⟨by decide +kernel, by decide +kernel⟩
  refine eventually_atTop.mpr ⟨settlingRun.length, fun n later => ?_⟩
  rw [last n later]
  exact rests

end GroupComm.Lab1
