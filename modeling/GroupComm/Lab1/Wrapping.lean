import GroupComm.Lab1.Progress

/-!
# When an identifier comes back

`createDataMessage` increments `msgId` without a check.  A host that has nothing left to send can
call `multicast` over and over, without sending anything, until the counter is one behind: its next
message then has the identifier of the last one that it has sent.

* `Padded`: the messages that a host holds and does not send make no difference to the others, and
  none to the host as long as nobody answers them.
* `exists_reach_numbered`: calls of `multicast` alone take the counter to any number.
* `exists_reach_again`: what the system does from where the counter is one behind, it can do after
  such calls.
-/

namespace GroupComm.Lab1

open Transition

/-! ## Messages that nobody answers -/

namespace ContinuousMsgSender

variable {T Host : Type} [HasMsgId T] [DecidableEq Host] {held rest : List (MsgHolder T Host)}
  {messageId : UInt32}

theorem eraseFromFirst_append_left (recipient : Host)
    (absent : ∀ h ∈ held, HasMsgId.msgId h.orgMsg ≠ messageId) :
    eraseFromFirst messageId recipient (held ++ rest) =
      ((eraseFromFirst messageId recipient rest).1,
        held ++ (eraseFromFirst messageId recipient rest).2) := by
  induction held with
  | nil => rfl
  | cons h held ih =>
      have skip : ¬ messageId = HasMsgId.msgId h.orgMsg := fun eq =>
        absent h List.mem_cons_self eq.symm
      simp only [List.cons_append, eraseFromFirst, skip, if_false,
        ih fun g mem => absent g (List.mem_cons_of_mem _ mem)]

theorem removeRecipient_append_left (rest : List (MsgHolder T Host)) (recipient : Host)
    (absent : ∀ h ∈ held, HasMsgId.msgId h.orgMsg ≠ messageId)
    (owing : ∀ h ∈ held, h.recipients ≠ ∅) :
    (⟨held ++ rest⟩ : ContinuousMsgSender T Host).removeRecipient messageId recipient =
      (((⟨rest⟩ : ContinuousMsgSender T Host).removeRecipient messageId recipient).1,
        ⟨held ++ ((⟨rest⟩ : ContinuousMsgSender T Host).removeRecipient messageId
          recipient).2.msgList⟩) := by
  simp only [removeRecipient, eraseFromFirst_append_left recipient absent]
  rw [List.eraseP_append_right _ fun h mem => by simpa using owing h mem]

end ContinuousMsgSender

namespace MulticastService

variable {Host : Type} [DecidableEq Host] {D : Deployment Host} {self : Host}

/-- The service that holds some more messages, in front of the others. -/
def pad (held : List (MsgHolder DataMessage Host)) (s : MulticastService Host) :
    MulticastService Host :=
  { s with dataMsgSender := ⟨held ++ s.dataMsgSender.msgList⟩ }

variable {held : List (MsgHolder DataMessage Host)} {s : MulticastService Host}

/-- A message that is queued behind the others, when these are all. -/
theorem multicast_pad_of_idle (idle : s.dataMsgSender.msgList = []) {data : UInt32} :
    (s.pad held).multicast D self data =
      ({ s with msgId := s.msgId + 1 } : MulticastService Host).pad
        (held ++ [⟨s.createDataMessage D self data, D.hostnames.toFinset⟩]) := by
  simp only [multicast, pad, ContinuousMsgSender.queueMsg, idle, List.append_nil]
  rfl

theorem processAckMsg_pad {m : AckMessage} (apart : ∀ h ∈ held, h.orgMsg.msgId ≠ m.msgId)
    (owing : ∀ h ∈ held, h.recipients ≠ ∅) :
    (s.pad held).processAckMsg D m =
      (s.processAckMsg D m).map fun o => { o with service := o.service.pad held } := by
  unfold processAckMsg
  cases D.recipientIdMap m.proposer with
  | none => rfl
  | some recipient =>
      have padded := ContinuousMsgSender.removeRecipient_append_left s.dataMsgSender.msgList
        recipient apart owing
      simp only [Option.bind_eq_bind, Option.bind_some, pad, padded]
      split
      · split
        · cases createSeqMessage m _ <;> rfl
        · rfl
      · rfl

theorem processPacket_pad {packet : Packet}
    (apart : ∀ m, packet = .ack m → ∀ h ∈ held, h.orgMsg.msgId ≠ m.msgId)
    (owing : ∀ h ∈ held, h.recipients ≠ ∅) :
    (s.pad held).processPacket D self packet =
      (s.processPacket D self packet).map fun o => { o with service := o.service.pad held } := by
  cases packet with
  | data m =>
      change (s.pad held).processDataMsg D self m = (s.processDataMsg D self m).map _
      cases known : D.recipientIdMap m.sender with
      | none => simp [processDataMsg, known]
      | some sender =>
          by_cases pending : m.ident ∈ s.holdBackQueue.pendingMsgSet
          · rw [processDataMsg_of_pending known pending,
              processDataMsg_of_pending (s := s.pad held) known pending, Option.map_map]
            rfl
          · rw [processDataMsg_of_new known pending,
              processDataMsg_of_new (s := s.pad held) known pending]
            rfl
  | ack m => exact processAckMsg_pad (apart m rfl) owing
  | seq m =>
      simp only [processPacket, processSeqMsg, pad]
      cases D.recipientIdMap m.sender <;> rfl
  | seqAck m =>
      simp only [processPacket, processSeqAckMsg, pad]
      cases D.recipientIdMap m.ackSender <;> rfl

end MulticastService

namespace System

variable {Host : Type} [DecidableEq Host] {D : Deployment Host} {s s' t t' : System Host}
  {p : Host} {held : List (MsgHolder DataMessage Host)}

/-- `s` is `t`, but that host `p` holds some more messages, in front of the others. -/
structure Padded (p : Host) (held : List (MsgHolder DataMessage Host)) (s t : System Host) :
    Prop where
  service : s.service = Function.update t.service p ((t.service p).pad held)
  channel : s.channel = t.channel
  stopped : s.stopped = t.stopped
  delivered : s.delivered = t.delivered
  accepted : s.accepted = t.accepted
  finals : s.finals = t.finals

theorem Padded.service_self (h : Padded p held s t) : s.service p = (t.service p).pad held := by
  rw [h.service, Function.update_self]

theorem Padded.service_of_ne (h : Padded p held s t) {q : Host} (ne : q ≠ p) :
    s.service q = t.service q := by
  rw [h.service, Function.update_of_ne ne]

/-- The lists that are not padded. -/
theorem Padded.seqMsgSender (h : Padded p held s t) (q : Host) :
    (s.service q).seqMsgSender = (t.service q).seqMsgSender := by
  by_cases same : q = p
  · rw [same, h.service_self]
    rfl
  · rw [h.service_of_ne same]

theorem Padded.receiver (h : Padded p held s t) (q : Host) :
    (s.service q).holdBackQueue = (t.service q).holdBackQueue ∧
      (s.service q).latestSeqId = (t.service q).latestSeqId := by
  by_cases same : q = p
  · rw [same, h.service_self]
    exact ⟨rfl, rfl⟩
  · rw [h.service_of_ne same]
    exact ⟨rfl, rfl⟩

theorem Padded.running (h : Padded p held s t) {q : Host} (running : t.running D q) :
    s.running D q := by
  rw [System.running, h.stopped]
  exact running

theorem Padded.incoming (h : Padded p held s t) (e : Event Host) :
    s.incoming e = t.incoming e := by
  cases e with
  | receive src dst i copy => rw [System.incoming, System.incoming, h.channel]
  | _ => rfl

/-- The sending thread of `p` finds its messages behind `n` others. -/
def shift (p : Host) (n : Nat) : Event Host → Event Host
  | .sendData q i recipient => .sendData q (if q = p then n + i else i) recipient
  | e => e

theorem incoming_shift (n : Nat) (e : Event Host) : s.incoming (shift p n e) = s.incoming e := by
  cases e <;> rfl

/-- The only answers that `p` is handed are those to its messages with the number `k`. -/
def AnswersOnly (p : Host) (k : UInt32) (s : System Host) (e : Event Host) : Prop :=
  match s.incoming e with
  | some (q, .ack m) => q = p → m.msgId = k
  | _ => True

instance (p : Host) (k : UInt32) (s : System Host) (e : Event Host) :
    Decidable (s.AnswersOnly p k e) := by
  unfold AnswersOnly
  split <;> infer_instance

theorem Padded.post (h : Padded p held s t) (q : Host) (sent : List (Host × Packet)) :
    Padded p held (s.post q sent) (t.post q sent) where
  service := h.service
  channel := by
    unfold System.post
    rw [h.channel]
  stopped := h.stopped
  delivered := h.delivered
  accepted := h.accepted
  finals := h.finals

theorem Padded.setChannel (h : Padded p held s t) (src dst : Host) (l : List Packet) :
    Padded p held (s.setChannel src dst l) (t.setChannel src dst l) where
  service := h.service
  channel := by
    unfold System.setChannel
    rw [h.channel]
  stopped := h.stopped
  delivered := h.delivered
  accepted := h.accepted
  finals := h.finals

/-- A handler of `p` leaves the messages in front where they are. -/
theorem Padded.commit_self (h : Padded p held s t) (o : Outcome Host) :
    Padded p held (s.commit p { o with service := o.service.pad held }) (t.commit p o) where
  service := by simp only [commit, System.post, h.service, Function.update_idem,
    Function.update_self]
  channel := by simp only [commit, System.post, h.channel]
  stopped := h.stopped
  delivered := by simp only [commit, System.post, h.delivered]
  accepted := by simp only [commit, System.post, h.accepted]
  finals := by simp only [commit, System.post, h.finals]

theorem Padded.commit_of_ne (h : Padded p held s t) {q : Host} (ne : q ≠ p) (o : Outcome Host) :
    Padded p held (s.commit q o) (t.commit q o) where
  service := by
    simp only [commit, System.post, h.service, Function.update_of_ne ne.symm]
    exact Function.update_comm ne.symm _ _ _
  channel := by simp only [commit, System.post, h.channel]
  stopped := h.stopped
  delivered := by simp only [commit, System.post, h.delivered]
  accepted := by simp only [commit, System.post, h.accepted]
  finals := by simp only [commit, System.post, h.finals]

theorem Padded.receive (h : Padded p held s t) (owing : ∀ x ∈ held, x.recipients ≠ ∅)
    {src dst : Host} {i : Nat} {copy : Bool}
    (apart : ∀ m, t.incoming (.receive src dst i copy) = some (p, .ack m) →
      ∀ x ∈ held, x.orgMsg.msgId ≠ m.msgId)
    (taken : t.step D (.receive src dst i copy) = some t') :
    ∃ s', s.step D (.receive src dst i copy) = some s' ∧ Padded p held s' t' := by
  obtain ⟨running, packet, found, outcome⟩ := step_receive taken
  have found' : (s.channel src dst)[i]? = some packet := by rw [h.channel, found]
  have left : Padded p held (s.setChannel src dst (leftover (s.channel src dst) i copy))
      (t.setChannel src dst (leftover (t.channel src dst) i copy)) := by
    rw [h.channel]
    exact h.setChannel src dst _
  -- the same outcome, up to the messages in front
  have handled : ∀ o, (t.service dst).processPacket D dst packet = o →
      (s.service dst).processPacket D dst packet =
        if dst = p then o.map fun o => { o with service := o.service.pad held } else o := by
    rintro _ rfl
    by_cases here : dst = p
    · subst here
      rw [if_pos rfl, h.service_self]
      refine MulticastService.processPacket_pad (fun m eq => apart m ?_) owing
      rw [System.incoming, found, eq]
      rfl
    · rw [if_neg here, h.service_of_ne here]
  rcases outcome with ⟨o, ok, rfl⟩ | ⟨thrown, rfl⟩
  · have handled := handled _ ok
    by_cases here : dst = p
    · subst here
      rw [if_pos rfl] at handled
      exact ⟨_, step_receive_some found' (h.running running) handled, left.commit_self o⟩
    · rw [if_neg here] at handled
      exact ⟨_, step_receive_some found' (h.running running) handled, left.commit_of_ne here o⟩
  · have handled := handled _ thrown
    rw [Option.map_none, ite_self] at handled
    refine ⟨_, step_receive_none found' (h.running running) handled, ?_⟩
    exact ⟨left.service, left.channel, by rw [h.stopped], left.delivered, left.accepted,
      left.finals⟩

theorem Padded.step (h : Padded p held s t) (owing : ∀ x ∈ held, x.recipients ≠ ∅)
    {e : Event Host} (apart : ∀ m, t.incoming e = some (p, .ack m) →
      ∀ x ∈ held, x.orgMsg.msgId ≠ m.msgId) (taken : t.step D e = some t') :
    ∃ s', s.step D (shift p held.length e) = some s' ∧ Padded p held s' t' := by
  cases e with
  | multicast q data =>
      obtain ⟨running, rfl⟩ := step_multicast taken
      refine ⟨_, if_pos (h.running running), ?_, h.channel, h.stopped, h.delivered, h.accepted,
        h.finals⟩
      by_cases here : q = p
      · subst here
        simp only [h.service, Function.update_idem, Function.update_self]
        simp only [MulticastService.multicast, MulticastService.pad, ContinuousMsgSender.queueMsg,
          MulticastService.createDataMessage, List.append_assoc]
      · simp only [h.service, Function.update_of_ne here, Function.update_of_ne (Ne.symm here)]
        exact Function.update_comm (Ne.symm here) _ _ _
  | sendData q i recipient =>
      simp only [System.step] at taken
      split at taken
      · rename_i holder found
        split at taken
        · rename_i guard
          cases taken
          refine ⟨_, ?_, h.post q _⟩
          have found' : (s.service q).dataMsgSender.msgList[
              if q = p then held.length + i else i]? = some holder := by
            by_cases here : q = p
            · subst here
              rw [if_pos rfl, h.service_self, MulticastService.pad,
                List.getElem?_append_right (Nat.le_add_right _ _), Nat.add_sub_cancel_left, found]
            · rw [if_neg here, h.service_of_ne here, found]
          simp only [shift, System.step, found']
          exact if_pos ⟨h.running guard.1, guard.2⟩
        · cases taken
      · cases taken
  | sendSeq q i recipient =>
      simp only [System.step] at taken
      split at taken
      · rename_i holder found
        split at taken
        · rename_i guard
          cases taken
          refine ⟨_, ?_, h.post q _⟩
          simp only [shift, System.step, h.seqMsgSender, found]
          exact if_pos ⟨h.running guard.1, guard.2⟩
        · cases taken
      · cases taken
  | receive src dst i copy => exact h.receive owing apart taken
  | lose src dst i =>
      simp only [System.step] at taken
      split at taken
      · rename_i packet found
        cases taken
        refine ⟨_, ?_, h.setChannel src dst _⟩
        simp only [shift, System.step, h.channel, found]
      · cases taken

/-! ## Calls of `multicast` alone -/

/-- The state with another number in the counter of `p`. -/
def numbered (s : System Host) (p : Host) (k : UInt32) : System Host :=
  { s with service := Function.update s.service p { s.service p with msgId := k } }

theorem numbered_service (s : System Host) (p : Host) (k : UInt32) :
    (s.numbered p k).service p = { s.service p with msgId := k } :=
  Function.update_self ..

/-- A call moves the counter by one and queues one message more. -/
theorem Padded.multicasting {k : UInt32} (h : Padded p held s' (s.numbered p k))
    (idle : (s.service p).dataMsgSender.msgList = []) (data : UInt32) :
    ∃ m : DataMessage, m.msgId = k + 1 ∧
      Padded p (held ++ [⟨m, D.hostnames.toFinset⟩]) (s'.multicasting D p data)
        (s.numbered p (k + 1)) := by
  have own := h.service_self
  have idle' : ((s.numbered p k).service p).dataMsgSender.msgList = [] := by
    rw [numbered_service]
    exact idle
  refine ⟨((s.numbered p k).service p).createDataMessage D p data, ?_, ?_, h.channel, h.stopped,
    h.delivered, h.accepted, h.finals⟩
  · rw [numbered_service]
    rfl
  · change Function.update s'.service p ((s'.service p).multicast D p data) = _
    rw [own, MulticastService.multicast_pad_of_idle idle', h.service]
    simp only [numbered, Function.update_idem, Function.update_self]

/-- The counter of a host can be taken to any number, by calls whose messages stay unsent. -/
theorem exists_reach_numbered {allowed : System Host → Event Host → Prop}
    (calls : ∀ s data, allowed s (.multicast p data)) (running : s.running D p)
    (idle : (s.service p).dataMsgSender.msgList = []) (n : ℕ) :
    ∃ s' held, Reach (System.step D) allowed s s' ∧
      Padded p held s' (s.numbered p ((s.service p).msgId + UInt32.ofNat n)) ∧
      ∀ x ∈ held, x.recipients ≠ ∅ ∧
        ∃ i, 0 < i ∧ i ≤ n ∧ x.orgMsg.msgId = (s.service p).msgId + UInt32.ofNat i := by
  induction n with
  | zero =>
      have same : (s.service p).msgId + UInt32.ofNat 0 = (s.service p).msgId := UInt32.add_zero _
      refine ⟨s, [], .start, ⟨?_, rfl, rfl, rfl, rfl, rfl⟩, fun x mem => by cases mem⟩
      rw [same]
      simp [numbered, MulticastService.pad]
  | succ n ih =>
      obtain ⟨s', held, reach, padded, below⟩ := ih
      have next : (s.service p).msgId + UInt32.ofNat n + 1 =
          (s.service p).msgId + UInt32.ofNat (n + 1) := by
        rw [UInt32.ofNat_add, UInt32.add_assoc]
        rfl
      obtain ⟨m, number, padded'⟩ := padded.multicasting (D := D) idle 0
      rw [next] at number padded'
      have taken : s'.step D (.multicast p 0) = some (s'.multicasting D p 0) :=
        if_pos (padded.running running)
      refine ⟨_, _, reach.next (calls s' 0) taken, padded', fun y mem => ?_⟩
      rcases List.mem_append.mp mem with old | new
      · obtain ⟨owing, i, positive, le, same⟩ := below y old
        exact ⟨owing, i, positive, Nat.le_succ_of_le le, same⟩
      · rw [List.mem_singleton] at new
        subst new
        exact ⟨Finset.ne_empty_of_mem (List.mem_toFinset.mpr running.1), n + 1, Nat.succ_pos n,
          Nat.le_refl _, number⟩

/-- The counter of `p` is one behind. -/
def rewound (s : System Host) (p : Host) : System Host :=
  s.numbered p ((s.service p).msgId + UInt32.ofNat (UInt32.size - 1))

/-- Whatever the system does from where the counter of `p` is one behind, it can do. -/
theorem exists_reach_again {allowed : System Host → Event Host → Prop}
    (calls : ∀ s data, allowed s (.multicast p data))
    (carried : ∀ {held s t e}, Padded p held s t → allowed t e →
      allowed s (shift p held.length e))
    (reach : Reach (step D) allowed (initial Host) s) (running : s.running D p)
    (idle : (s.service p).dataMsgSender.msgList = [])
    (again : Reach (step D) (fun t e => allowed t e ∧ t.AnswersOnly p (s.service p).msgId e)
      (s.rewound p) t) :
    ∃ s' held, Reach (step D) allowed (initial Host) s' ∧ Padded p held s' t := by
  obtain ⟨s₁, held, burst, padded, below⟩ :=
    exists_reach_numbered (D := D) calls running idle (UInt32.size - 1)
  have others : ∀ x ∈ held, x.orgMsg.msgId ≠ (s.service p).msgId := by
    intro x mem same
    obtain ⟨_, i, positive, le, eq⟩ := below x mem
    have zero : UInt32.ofNat i = 0 := UInt32.add_eq_left.mp (eq.symm.trans same)
    have value := congrArg UInt32.toNat zero
    rw [UInt32.toNat_ofNat_of_lt' (Nat.lt_of_le_of_lt le (by decide))] at value
    exact Nat.ne_of_gt positive value
  have follows : ∃ s', Reach (step D) allowed s₁ s' ∧ Padded p held s' t := by
    refine again.simulated (R := fun t s => Padded p held s t) padded ?_
    rintro t s e t' _ _ padded ⟨ok, only⟩ taken
    refine (padded.step (fun x mem => (below x mem).1) (fun m into x mem eq => ?_) taken).elim
      fun s' h => ⟨s', .next .start (carried padded ok) h.1, h.2⟩
    unfold AnswersOnly at only
    rw [into] at only
    exact others x mem (eq.trans (only rfl))
  obtain ⟨s', after, padded'⟩ := follows
  exact ⟨s', held, (reach.trans burst).trans after, padded'⟩

end System

end GroupComm.Lab1
