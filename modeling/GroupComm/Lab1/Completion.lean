import Mathlib.Algebra.Order.BigOperators.Group.Finset
import Mathlib.Data.Set.Card
import GroupComm.Lab1.Liveness

/-!
# The multicast can always be completed

However a run has gone on so far, and whatever the network has lost, the processes can complete
all multicasts without new ones as soon as the network stops losing (`can_complete`): the protocol
has no state in which a host waits for something that nobody sends any more.

The run first handles what is in flight.  A request (`DataMessage`, `SeqMessage`) is followed by
one answer and an answer by nothing, so this comes to an end (`can_drain`).  From then on one
message at a time goes to one recipient and the answer back (`round_trip`).
-/

namespace GroupComm.Lab1

open Transition

/-- The messages that a receiver answers. -/
def Packet.isRequest : Packet → Bool
  | .data _ => true
  | .ack _ => false
  | .seq _ => true
  | .seqAck _ => false

/-- An answer and the request that it may belong to. -/
def Packet.Answers : Packet → Packet → Prop
  | .ack answer, .data m => answer.msgId = m.msgId
  | .seqAck answer, .seq m => answer.msgId = m.msgId
  | _, _ => False

namespace System

variable {Host : Type} [DecidableEq Host] {D : Deployment Host} {s s' : System Host}

/-- What an ordered network leads to while no identifier has come back. -/
structure Reached (D : Deployment Host) (s : System Host) : Prop where
  reach : Reach (step D) Ordered (initial Host) s
  few : s.FewMulticasts D

theorem Reached.identified (reached : Reached D s) : Identified D s :=
  identified_of_reachable reached.reach.always reached.few

/-- Nothing is lost, and nothing new is multicast. -/
def Faultless (s : System Host) : Event Host → Prop
  | .multicast _ _ => False
  | .sendData _ _ _ => True
  | .sendSeq _ _ _ => True
  | .receive src dst i copy => s.Ordered (.receive src dst i copy)
  | .lose _ _ _ => False

omit [DecidableEq Host] in
theorem ordered_of_faultless (s : System Host) (e : Event Host) (ok : s.Faultless e) :
    s.Ordered e := by
  cases e with
  | multicast => exact ok.elim
  | sendData => trivial
  | sendSeq => trivial
  | receive => exact ok
  | lose => exact ok.elim

/-- A request is answered with one datagram, and an answer with none. -/
theorem Sound.reply_of_packet (sound : Sound D s) {a b : Host} (ha : a ∈ D.hostnames)
    (hb : b ∈ D.hostnames) {packet : Packet} (holds : s.PacketSound D a b packet)
    {o : Outcome Host} (handled : (s.service b).processPacket D b packet = some o) :
    if packet.isRequest then
      ∃ answer : Packet, o.sent = [(a, answer)] ∧ answer.isRequest = false ∧ answer.Answers packet
    else o.sent = [] := by
  cases packet with
  | data m =>
      obtain ⟨ack, sent, same⟩ := sound.ack_of_data ha hb holds handled
      refine ⟨.ack ack, ?_, rfl, same⟩
      simp only [MulticastService.processPacket, MulticastService.processDataMsg,
        Option.bind_eq_bind, Option.bind_eq_some_iff, Option.some.injEq] at handled
      obtain ⟨_, _, _, _, rfl⟩ := handled
      rw [List.mem_singleton] at sent
      rw [sent]
  | ack m =>
      simp only [MulticastService.processPacket, MulticastService.processAckMsg,
        Option.bind_eq_bind, Option.bind_eq_some_iff] at handled
      obtain ⟨_, _, handled⟩ := handled
      split at handled
      · split at handled
        · obtain ⟨_, _, eq⟩ := Option.bind_eq_some_iff.mp handled
          cases eq
          rfl
        · cases handled
          rfl
      · cases handled
        rfl
  | seq m =>
      rw [MulticastService.processPacket,
        MulticastService.processSeqMsg_eq (Hostfile.recipientIdMap_of_eq ha holds.2),
        Option.some.injEq] at handled
      subst handled
      exact ⟨_, rfl, rfl, rfl⟩
  | seqAck m =>
      rw [MulticastService.processPacket,
        MulticastService.processSeqAckMsg_eq (Hostfile.recipientIdMap_of_eq ha holds.1),
        Option.some.injEq] at handled
      subst handled
      rfl

/-- The first datagram of a channel can be handled. -/
theorem can_receive (reached : Reached D s) {a b : Host}
    {packet : Packet} {rest : List Packet} (channel : s.channel a b = packet :: rest) :
    a ∈ D.hostnames ∧ b ∈ D.hostnames ∧ s.PacketSound D a b packet ∧
      ∃ o, (s.service b).processPacket D b packet = some o ∧
        s.step D (.receive a b 0 false) = some ((s.setChannel a b rest).commit b o) := by
  have sound := reached.identified.toSound
  have mem : packet ∈ s.channel a b := by
    rw [channel]
    exact List.mem_cons_self
  obtain ⟨ha, hb, holds⟩ := sound.packets a b packet mem
  refine ⟨ha, hb, holds, ?_⟩
  have handles : (s.service b).processPacket D b packet ≠ none :=
    processPacket_ne_none sound (cacheExact_of_ordered reached.reach reached.few) ha hb holds
      fun m eq => (inOrder_of_ordered reached.reach reached.few).awaited a b hb m (eq ▸ mem)
  obtain ⟨o, handled⟩ := Option.ne_none_iff_exists'.mp handles
  have running : s.running D b := ⟨hb, running_of_ordered reached.reach reached.few b⟩
  have handled' : ((s.setChannel a b rest).service b).processPacket D b packet = some o := handled
  refine ⟨o, handled, ?_⟩
  simp [step, channel, running, handled']

/-- What a handled datagram does to the channels. -/
theorem channel_receive (a b : Host) (rest : List Packet) (o : Outcome Host) (x y : Host) :
    ((s.setChannel a b rest).commit b o).channel x y =
      (if x = a ∧ y = b then rest else s.channel x y) ++
        if x = b then (o.sent.filter fun sent => sent.1 = y).map (·.2) else [] :=
  channel_post b o.sent x y

theorem reach_receive (reached : Reached D s) {a b : Host}
    {rest : List Packet} {o : Outcome Host}
    (taken : s.step D (.receive a b 0 false) = some ((s.setChannel a b rest).commit b o)) :
    Reached D ((s.setChannel a b rest).commit b o) ∧
      Reach (step D) Faultless s ((s.setChannel a b rest).commit b o) := by
  have first : s.Ordered (.receive a b 0 false) := ⟨rfl, rfl⟩
  have ok : s.Faultless (.receive a b 0 false) := first
  exact ⟨⟨reached.reach.next first taken, reached.few⟩, Reach.next .start ok taken⟩

/-! ## What is in flight can be handled -/

/-- The pairs of a sender and a receiver. -/
def links (D : Deployment Host) : Finset (Host × Host) :=
  D.hostnames.toFinset ×ˢ D.hostnames.toFinset

def requestsInFlight (D : Deployment Host) (s : System Host) : ℕ :=
  ∑ link ∈ links D, (s.channel link.1 link.2).countP Packet.isRequest

def inFlight (D : Deployment Host) (s : System Host) : ℕ :=
  ∑ link ∈ links D, (s.channel link.1 link.2).length

/-- A request that is handled is gone, and its answer is none. -/
theorem requestsInFlight_lt {a b : Host} (link : (a, b) ∈ links D) {packet : Packet}
    {rest : List Packet} (channel : s.channel a b = packet :: rest)
    (request : packet.isRequest = true) {o : Outcome Host} {dst : Host} {answer : Packet}
    (sent : o.sent = [(dst, answer)]) (reply : answer.isRequest = false) :
    requestsInFlight D ((s.setChannel a b rest).commit b o) < requestsInFlight D s := by
  have answers : ∀ x y, (if x = b then (o.sent.filter fun sent => sent.1 = y).map (·.2)
      else []).countP Packet.isRequest = 0 := by
    intro x y
    rw [List.countP_eq_zero, sent]
    intro packet mem
    split at mem
    · simp only [List.mem_map, List.mem_filter, List.mem_singleton] at mem
      obtain ⟨_, ⟨rfl, _⟩, rfl⟩ := mem
      simp [reply]
    · cases mem
  refine Finset.sum_lt_sum (fun x _ => ?_) ⟨(a, b), link, ?_⟩
  · rw [channel_receive, List.countP_append, answers, Nat.add_zero]
    split
    · rename_i same
      rw [same.1, same.2, channel]
      exact (List.sublist_cons_self packet rest).countP_le
    · exact Nat.le_refl _
  · rw [channel_receive, List.countP_append, answers, Nat.add_zero, if_pos ⟨rfl, rfl⟩, channel,
      List.countP_cons_of_pos request]
    exact Nat.lt_succ_self _

/-- An answer that is handled is gone, and nothing follows. -/
theorem inFlight_lt {a b : Host} (link : (a, b) ∈ links D) {packet : Packet}
    {rest : List Packet} (channel : s.channel a b = packet :: rest) {o : Outcome Host}
    (sent : o.sent = []) :
    requestsInFlight D ((s.setChannel a b rest).commit b o) ≤ requestsInFlight D s ∧
      inFlight D ((s.setChannel a b rest).commit b o) < inFlight D s := by
  have silent : ∀ x y, ((s.setChannel a b rest).commit b o).channel x y =
      if x = a ∧ y = b then rest else s.channel x y := by
    intro x y
    rw [channel_receive, sent]
    simp
  have sub : ∀ x y, (((s.setChannel a b rest).commit b o).channel x y).Sublist
      (s.channel x y) := by
    intro x y
    rw [silent]
    split
    · rename_i same
      rw [same.1, same.2, channel]
      exact List.sublist_cons_self packet rest
    · exact List.Sublist.refl _
  constructor
  · exact Finset.sum_le_sum fun x _ => (sub x.1 x.2).countP_le
  · refine Finset.sum_lt_sum (fun x _ => (sub x.1 x.2).length_le) ⟨(a, b), link, ?_⟩
    rw [silent, if_pos ⟨rfl, rfl⟩, channel]
    exact Nat.lt_succ_self _

/-- Nothing is in flight. -/
def Silent (s : System Host) : Prop := ∀ a b, s.channel a b = []

theorem can_drain (reached : Reached D s) :
    ∃ s', Reach (step D) Faultless s s' ∧ Reached D s' ∧ s'.Silent := by
  have lex : WellFounded (Prod.Lex (· < ·) (· < ·) : ℕ × ℕ → ℕ × ℕ → Prop) :=
    (Prod.lex ⟨_, Nat.lt_wfRel.wf⟩ ⟨_, Nat.lt_wfRel.wf⟩).wf
  refine Reach.exhaust lex (fun s => (requestsInFlight D s, inFlight D s)) ?_ s reached
  intro s reached busy
  simp only [Silent, not_forall] at busy
  obtain ⟨a, b, busy⟩ := busy
  obtain ⟨packet, rest, channel⟩ := List.exists_cons_of_ne_nil busy
  obtain ⟨ha, hb, holds, o, handled, taken⟩ := can_receive reached channel
  have link : (a, b) ∈ links D :=
    Finset.mem_product.mpr ⟨List.mem_toFinset.mpr ha, List.mem_toFinset.mpr hb⟩
  obtain ⟨reached', run⟩ := reach_receive reached taken
  refine ⟨_, run, reached', ?_⟩
  have reply := reached.identified.toSound.reply_of_packet ha hb holds handled
  rw [Prod.lex_def]
  split at reply
  · rename_i request
    obtain ⟨answer, sent, noRequest, _⟩ := reply
    exact Or.inl (requestsInFlight_lt link channel request sent noRequest)
  · obtain ⟨le, less⟩ := inFlight_lt link channel reply
    exact (Nat.lt_or_eq_of_le le).imp_right fun same => ⟨same, less⟩

/-! ## One message to one recipient -/

/-- A request that is alone on the network is handled, and so is its answer. -/
theorem round_trip (reached : Reached D s) {p q : Host}
    {request : Packet}
    (alone : ∀ a b, s.channel a b = if a = p ∧ b = q then [request] else [])
    (isRequest : request.isRequest = true) :
    ∃ s₁ answer l o, answer.Answers request ∧ Reach (step D) Faultless s s₁ ∧
      s₁.PacketSound D q p answer ∧ Reached D s₁ ∧
      (s₁.service p).processPacket D p answer = some o ∧
      Reach (step D) Faultless s₁ ((s₁.setChannel q p l).commit p o) ∧
      ((s₁.setChannel q p l).commit p o).Silent := by
  have there : s.channel p q = [request] := by rw [alone, if_pos ⟨rfl, rfl⟩]
  obtain ⟨hp, hq, holds, o₁, handled₁, taken₁⟩ := can_receive reached there
  obtain ⟨reached₁, run₁⟩ := reach_receive reached taken₁
  have reply := reached.identified.toSound.reply_of_packet hp hq holds handled₁
  rw [if_pos isRequest] at reply
  obtain ⟨answer, sent, noRequest, answers⟩ := reply
  set s₁ := (s.setChannel p q []).commit q o₁ with hs₁
  have alone₁ : ∀ a b, s₁.channel a b = if a = q ∧ b = p then [answer] else [] := by
    intro a b
    have left : (if a = p ∧ b = q then [] else s.channel a b) = [] := by
      rw [alone]
      split <;> rfl
    rw [hs₁, channel_receive, left, List.nil_append, sent]
    by_cases from' : a = q
    · by_cases to' : b = p
      · simp [from', to']
      · simp [from', to', Ne.symm to']
    · simp [from']
  have back : s₁.channel q p = [answer] := by rw [alone₁, if_pos ⟨rfl, rfl⟩]
  obtain ⟨_, _, holds₂, o₂, handled₂, taken₂⟩ := can_receive reached₁ back
  obtain ⟨_, run₂⟩ := reach_receive reached₁ taken₂
  have reply₂ := reached₁.identified.toSound.reply_of_packet hq hp holds₂ handled₂
  rw [if_neg (by rw [noRequest]; exact Bool.false_ne_true)] at reply₂
  refine ⟨s₁, answer, [], o₂, answers, run₁, holds₂, reached₁, handled₂, run₂, fun a b => ?_⟩
  rw [channel_receive, reply₂, alone₁]
  simp

/-! ## What is owed -/

section

variable {T : Type} [HasMsgId T]

/-- What all senders of one kind still owe. -/
def owed (D : Deployment Host) (sender : MulticastService Host → ContinuousMsgSender T Host)
    (s : System Host) : Set (Host × UInt32 × Host) :=
  { x | x.1 ∈ D.hostnames ∧ (sender (s.service x.1)).Owes x.2.1 x.2.2 }

variable (sender : MulticastService Host → ContinuousMsgSender T Host)

omit [DecidableEq Host] in
theorem finite_owed (D : Deployment Host) (s : System Host) : (owed D sender s).Finite := by
  have hosts : { p | p ∈ D.hostnames }.Finite := List.finite_toSet _
  refine (hosts.biUnion fun p _ =>
    (sender (s.service p)).finite_owes.image fun pair => (p, pair.1, pair.2)).subset ?_
  rintro ⟨p, id, q⟩ ⟨hp, owes⟩
  exact Set.mem_biUnion hp ⟨(id, q), owes, rfl⟩

variable {sender}

omit [DecidableEq Host] in
/-- Whoever has something to send owes it to somebody. -/
theorem exists_owed
    (wf : ∀ p ∈ D.hostnames, (sender (s.service p)).WellFormed)
    (busy : ¬ ∀ p ∈ D.hostnames, (sender (s.service p)).msgList = []) :
    ∃ p id q, (p, id, q) ∈ owed D sender s := by
  by_contra none
  refine busy fun p hp => (wf p hp).msgList_eq_nil fun id q owes => ?_
  exact none ⟨p, id, q, hp, owes⟩

omit [DecidableEq Host] in
theorem sent_of_owed_subset (wf : ∀ p ∈ D.hostnames, (sender (s'.service p)).WellFormed)
    (sub : owed D sender s' ⊆ owed D sender s)
    (sent : ∀ p ∈ D.hostnames, (sender (s.service p)).msgList = []) :
    ∀ p ∈ D.hostnames, (sender (s'.service p)).msgList = [] := by
  intro p hp
  refine (wf p hp).msgList_eq_nil fun id q owes => ?_
  have before : (p, id, q) ∈ owed D sender s := sub ⟨hp, owes⟩
  obtain ⟨_, holder, mem, _⟩ := before
  rw [sent p hp] at mem
  cases mem

end

theorem multicasts_of_faultless {e : Event Host} (ok : s.Faultless e)
    (taken : s.step D e = some s') : s'.multicasts = s.multicasts := by
  cases e with
  | multicast p data => exact ok.elim
  | sendData p i recipient =>
      obtain ⟨_, _, _, _, rfl⟩ := step_sendData taken
      rfl
  | sendSeq p i recipient =>
      obtain ⟨_, _, _, _, rfl⟩ := step_sendSeq taken
      rfl
  | receive src dst i copy =>
      obtain ⟨_, _, _, ⟨_, _, rfl⟩ | ⟨_, rfl⟩⟩ := step_receive taken
      · rfl
      · rfl
  | lose src dst i => exact ok.elim

/-- A run without faults: no message is added, and what is owed only gets less. -/
theorem faultless_run (reached : Reached D s)
    (run : Reach (step D) Faultless s s') :
    Reached D s' ∧ s'.multicasts = s.multicasts ∧
      owed D MulticastService.dataMsgSender s' ⊆ owed D MulticastService.dataMsgSender s ∧
      ((∀ p ∈ D.hostnames, (s.service p).dataMsgSender.msgList = []) →
        owed D MulticastService.seqMsgSender s' ⊆ owed D MulticastService.seqMsgSender s) := by
  induction run with
  | start => exact ⟨reached, rfl, Set.Subset.refl _, fun _ => Set.Subset.refl _⟩
  | @next t t' e _ ok taken ih =>
      obtain ⟨reached', multicasts, data, seq⟩ := ih
      have identified := reached'.identified
      have sound := identified.toSound
      have same := multicasts_of_faultless ok taken
      have fewer : t'.FewMulticasts D := by
        rw [FewMulticasts, same]
        exact reached'.few
      refine ⟨⟨reached'.reach.next (ordered_of_faultless t e ok) taken, fewer⟩,
        same.trans multicasts, ?_, ?_⟩
      · rintro ⟨p, id, q⟩ ⟨hp, owes⟩
        exact data ⟨hp, (sound.senderStep taken p).owes_data (identified.numbered p hp).dataWf
          (congrFun same p) owes⟩
      · rintro sent ⟨p, id, q⟩ ⟨hp, owes⟩
        have still := sent_of_owed_subset (fun p hp => (identified.numbered p hp).dataWf) data
          sent
        exact seq sent ⟨hp, (sound.senderStep taken p).owes_seq (identified.numbered p hp).seqWf
          (congrFun same p) (still p hp) owes⟩

/-! ## Everything that is owed can be sent -/

omit [DecidableEq Host] in
theorem Silent.alone [DecidableEq Host] (silent : s.Silent) (p q : Host) (packet : Packet)
    (a b : Host) : (s.post p [(q, packet)]).channel a b =
      if a = p ∧ b = q then [packet] else [] := by
  rw [channel_post, silent a b, List.nil_append]
  by_cases from' : a = p
  · by_cases to' : b = q
    · simp [from', to']
    · simp [from', to', Ne.symm to']
  · simp [from']

theorem can_send_data (reached : Reached D s) (silent : s.Silent)
    {p q : Host} {id : UInt32} (owes : (p, id, q) ∈ owed D MulticastService.dataMsgSender s) :
    ∃ s', Reach (step D) Faultless s s' ∧ s'.Silent ∧
      (p, id, q) ∉ owed D MulticastService.dataMsgSender s' := by
  obtain ⟨hp, holder, mem, rfl, owed⟩ := owes
  have sound := reached.identified.toSound
  have hq := ((sound.sender p hp).dataHeld holder mem).2 q owed
  obtain ⟨i, found⟩ := List.mem_iff_getElem?.mp mem
  have taken : s.step D (.sendData p i q) = some (s.post p [(q, .data holder.orgMsg)]) := by
    have running : s.running D p := ⟨hp, running_of_ordered reached.reach reached.few p⟩
    simp [step, found, running, owed]
  have run : Reach (step D) Faultless s (s.post p [(q, .data holder.orgMsg)]) :=
    Reach.next .start (e := .sendData p i q) trivial taken
  obtain ⟨s₁, answer, l, o, answers, run₁, holds, reached₁, handled, run₂, silent₂⟩ :=
    round_trip (faultless_run reached run).1 (silent.alone p q _) rfl
  refine ⟨_, (run.trans run₁).trans run₂, silent₂, ?_⟩
  cases answer with
  | ack m =>
      rintro ⟨_, still⟩
      have known := Hostfile.recipientIdMap_of_eq hq holds.1
      have wf := (reached₁.identified.numbered p hp).dataWf
      rw [commit_service_self] at still
      change o.service.dataMsgSender.Owes holder.orgMsg.msgId q at still
      rw [MulticastService.dataMsgSender_of_processAckMsg known handled,
        wf.owes_removeRecipient] at still
      exact still.2 ⟨answers.symm, rfl⟩
  | data => exact answers.elim
  | seq => exact answers.elim
  | seqAck => exact answers.elim

theorem can_send_seq (reached : Reached D s) (silent : s.Silent)
    {p q : Host} {id : UInt32} (owes : (p, id, q) ∈ owed D MulticastService.seqMsgSender s) :
    ∃ s', Reach (step D) Faultless s s' ∧ s'.Silent ∧
      (p, id, q) ∉ owed D MulticastService.seqMsgSender s' := by
  obtain ⟨hp, holder, mem, rfl, owed⟩ := owes
  have sound := reached.identified.toSound
  have hq := ((sound.sender p hp).seqHeld holder mem).2 q owed
  obtain ⟨i, found⟩ := List.mem_iff_getElem?.mp mem
  have taken : s.step D (.sendSeq p i q) = some (s.post p [(q, .seq holder.orgMsg)]) := by
    have running : s.running D p := ⟨hp, running_of_ordered reached.reach reached.few p⟩
    simp [step, found, running, owed]
  have run : Reach (step D) Faultless s (s.post p [(q, .seq holder.orgMsg)]) :=
    Reach.next .start (e := .sendSeq p i q) trivial taken
  obtain ⟨s₁, answer, l, o, answers, run₁, holds, reached₁, handled, run₂, silent₂⟩ :=
    round_trip (faultless_run reached run).1 (silent.alone p q _) rfl
  refine ⟨_, (run.trans run₁).trans run₂, silent₂, ?_⟩
  cases answer with
  | seqAck m =>
      rintro ⟨_, still⟩
      have known := Hostfile.recipientIdMap_of_eq hq holds.1
      have wf := (reached₁.identified.numbered p hp).seqWf
      rw [commit_service_self] at still
      change o.service.seqMsgSender.Owes holder.orgMsg.msgId q at still
      rw [(MulticastService.senders_of_processSeqAckMsg known handled).2,
        wf.owes_removeRecipient] at still
      exact still.2 ⟨answers.symm, rfl⟩
  | data => exact answers.elim
  | seq => exact answers.elim
  | ack => exact answers.elim

omit [DecidableEq Host] in
theorem ncard_owed_lt {T : Type} [HasMsgId T]
    {sender : MulticastService Host → ContinuousMsgSender T Host}
    (sub : owed D sender s' ⊆ owed D sender s) {x : Host × UInt32 × Host}
    (mem : x ∈ owed D sender s) (gone : x ∉ owed D sender s') :
    (owed D sender s').ncard < (owed D sender s).ncard := by
  refine Set.ncard_lt_ncard (Set.ssubset_iff_subset_ne.mpr ⟨sub, fun same => ?_⟩)
    (finite_owed sender D s)
  rw [same] at gone
  exact gone mem

theorem can_send_all_data (reached : Reached D s)
    (silent : s.Silent) :
    ∃ s', Reach (step D) Faultless s s' ∧
      (Reached D s' ∧ s'.Silent) ∧
      ∀ p ∈ D.hostnames, (s'.service p).dataMsgSender.msgList = [] := by
  refine Reach.exhaust Nat.lt_wfRel.wf (fun s => (owed D MulticastService.dataMsgSender s).ncard)
    ?_ s ⟨reached, silent⟩
  rintro s ⟨reached, silent⟩ busy
  have identified := reached.identified
  obtain ⟨p, id, q, owes⟩ := exists_owed (fun p hp => (identified.numbered p hp).dataWf) busy
  obtain ⟨s', run, silent', gone⟩ := can_send_data reached silent owes
  obtain ⟨reached', _, less, _⟩ := faultless_run reached run
  exact ⟨s', run, ⟨reached', silent'⟩, ncard_owed_lt less owes gone⟩

theorem can_send_all_seq (reached : Reached D s)
    (silent : s.Silent) (dataSent : ∀ p ∈ D.hostnames, (s.service p).dataMsgSender.msgList = []) :
    ∃ s', Reach (step D) Faultless s s' ∧
      (Reached D s' ∧ s'.Silent ∧
        ∀ p ∈ D.hostnames, (s'.service p).dataMsgSender.msgList = []) ∧
      ∀ p ∈ D.hostnames, (s'.service p).seqMsgSender.msgList = [] := by
  refine Reach.exhaust Nat.lt_wfRel.wf (fun s => (owed D MulticastService.seqMsgSender s).ncard)
    ?_ s ⟨reached, silent, dataSent⟩
  rintro s ⟨reached, silent, dataSent⟩ busy
  have identified := reached.identified
  obtain ⟨p, id, q, owes⟩ := exists_owed (fun p hp => (identified.numbered p hp).seqWf) busy
  obtain ⟨s', run, silent', gone⟩ := can_send_seq reached silent owes
  obtain ⟨reached', _, data, seq⟩ := faultless_run reached run
  have identified' := reached'.identified
  have dataSent' := sent_of_owed_subset (fun p hp => (identified'.numbered p hp).dataWf) data
    dataSent
  exact ⟨s', run, ⟨reached', silent', dataSent'⟩, ncard_owed_lt (seq dataSent) owes gone⟩

/-- **No deadlock.**  From wherever a run in an ordered network has led, and whatever was lost, the
hosts can complete all multicasts: everybody delivers everything, and nothing is left in flight
or to send.  This is so as long as no host has called `multicast` 2^32 times. -/
theorem can_complete (D : Deployment Host) {s : System Host}
    (reach : Reach (step D) Ordered (initial Host) s) (few : s.FewMulticasts D) :
    ∃ s', Reach (step D) Faultless s s' ∧ s'.multicasts = s.multicasts ∧ s'.Quiescent D ∧
      s'.Finished D := by
  obtain ⟨s₁, run₁, reached₁, silent₁⟩ := can_drain ⟨reach, few⟩
  obtain ⟨s₂, run₂, ⟨reached₂, silent₂⟩, dataSent⟩ := can_send_all_data reached₁ silent₁
  obtain ⟨s₃, run₃, ⟨reached₃, silent₃, dataSent₃⟩, seqSent⟩ :=
    can_send_all_seq reached₂ silent₂ dataSent
  have run := (run₁.trans run₂).trans run₃
  have sent : ∀ p ∈ D.hostnames, (s₃.service p).dataMsgSender.msgList = [] ∧
      (s₃.service p).seqMsgSender.msgList = [] :=
    fun p hp => ⟨dataSent₃ p hp, seqSent p hp⟩
  exact ⟨s₃, run, (faultless_run ⟨reach, few⟩ run).2.1, ⟨silent₃, sent⟩,
    finished_of_sent reached₃.reach reached₃.few sent⟩

end System

/-- Both hosts have multicast; one copy has been accepted, and the others are lost. -/
def stalledRun : List (Event Bool) :=
  [.multicast false 10, .multicast true 20, .sendData false 0 false, .sendData false 0 true,
    .sendData true 0 false, .receive false true 0 false, .lose true false 0, .lose false false 0]

/-- The state in which `stalledRun` ends. -/
def stalled : System Bool :=
  (replay (System.step twoHosts) (System.initial Bool) stalledRun).get (by decide +kernel)

theorem can_complete_stalled :
    ∃ s', Reach (System.step twoHosts) System.Faultless stalled s' ∧
      s'.multicasts = stalled.multicasts ∧ s'.Quiescent twoHosts ∧ s'.Finished twoHosts :=
  System.can_complete twoHosts (Reach.of_isSome (by decide +kernel) _) (by decide +kernel)

end GroupComm.Lab1
