import GroupComm.Lab1.TotalOrder
import GroupComm.Lab1.Wrapping

/-!
# The final numbers of the messages

A host proposes a number once for each message before the final number of the message arrives,
and the sender takes the largest proposal.  As long as no counter wraps, a host proposes no
number twice, so the final number and its proposer belong to one message only.

* `Recorded` is the system with a log of the `AckMessage`s that are sent and of the
  `SeqMessage`s that are handled; `firstAcks` are those a host sends for a message before it
  handles the first `SeqMessage` of the message.
* `final_keys` is the result.
-/

namespace GroupComm.Lab1

open Transition StdAlgorithm

/-- What happens at a host. -/
inductive Occurrence (Host : Type) where
  | answered (r : Host) (ackMsg : AckMessage)
  | handled (r : Host) (seqMsg : SeqMessage)

namespace Occurrence

variable {Host : Type} [DecidableEq Host]

/-- Host `r` handles a final number of message `id`. -/
def settles (r : Host) (id : MsgIdentifier) : Occurrence Host → Bool
  | handled r' seqMsg => decide (r' = r ∧ seqMsg.ident = id)
  | answered _ _ => false

/-- The answer of host `r` for message `id`. -/
def ackOf (r : Host) (id : MsgIdentifier) : Occurrence Host → Option AckMessage
  | answered r' ackMsg => if r' = r ∧ ackMsg.ident = id then some ackMsg else none
  | handled _ _ => none

end Occurrence

/-- The multicast, and what has happened at the hosts. -/
structure Recorded (Host : Type) where
  system : System Host
  log : List (Occurrence Host)

namespace System

variable {Host : Type} [DecidableEq Host] (D : Deployment Host)

/-- The answers among the datagrams that a handler of `p` has sent. -/
def answersIn (p : Host) (sent : List (Host × Packet)) : List (Occurrence Host) :=
  sent.filterMap fun x => match x.2 with
    | .ack m => some (.answered p m)
    | _ => none

/-- What happens in a step. -/
def occurrences (s : System Host) (e : Event Host) : List (Occurrence Host) :=
  match s.incoming e with
  | some (p, packet) =>
      match (s.service p).processPacket D p packet, packet with
      | some _, .seq m => [.handled p m]
      | some o, _ => answersIn p o.sent
      | none, _ => []
  | none => []

/-- The counter of a host that accepts a message has a next value. -/
def HasNext (s : System Host) : Option (Host × Packet) → Prop
  | some (p, .data m) => m.ident ∉ (s.service p).holdBackQueue.pendingMsgSet →
      (s.service p).latestSeqId.toNat + 1 < UInt32.size
  | _ => True

instance (s : System Host) : ∀ handled, Decidable (s.HasNext handled)
  | some (_, .data _) => inferInstanceAs (Decidable (_ → _))
  | some (_, .ack _) => .isTrue trivial
  | some (_, .seq _) => .isTrue trivial
  | some (_, .seqAck _) => .isTrue trivial
  | none => .isTrue trivial

/-- No counter wraps. -/
def NoWrap (s : System Host) (e : Event Host) : Prop := s.HasNext (s.incoming e)

instance (s : System Host) (e : Event Host) : Decidable (s.NoWrap e) :=
  inferInstanceAs (Decidable (s.HasNext _))

/-- The messages that a host holds and does not send do not matter. -/
theorem NoWrap.of_padded {p : Host} {held : List (MsgHolder DataMessage Host)} {s t : System Host}
    {e : Event Host} (h : Padded p held s t) (noWrap : t.NoWrap e) :
    s.NoWrap (shift p held.length e) := by
  unfold NoWrap at noWrap ⊢
  rw [incoming_shift, h.incoming]
  revert noWrap
  rcases t.incoming e with _ | ⟨q, m | m | m | m⟩
  · exact id
  · simp only [HasNext, h.receiver q]
    exact id
  all_goals exact id

end System

namespace Recorded

variable {Host : Type} [DecidableEq Host] (D : Deployment Host)

def initial (Host : Type) : Recorded Host where
  system := System.initial Host
  log := []

def step (t : Recorded Host) (e : Event Host) : Option (Recorded Host) :=
  (t.system.step D e).map fun s => ⟨s, t.log ++ t.system.occurrences D e⟩

def NoWrap (t : Recorded Host) (e : Event Host) : Prop :=
  t.system.NoWrap e

instance (t : Recorded Host) (e : Event Host) : Decidable (t.NoWrap e) :=
  inferInstanceAs (Decidable (t.system.NoWrap e))

end Recorded

/-- The answers of host `r` for message `id` up to the first final number it handles. -/
def firstAcks {Host : Type} [DecidableEq Host] (log : List (Occurrence Host)) (r : Host)
    (id : MsgIdentifier) : List AckMessage :=
  (log.takeWhile fun x => !x.settles r id).filterMap (Occurrence.ackOf r id)

section FirstAcks

variable {Host : Type} [DecidableEq Host] {log new : List (Occurrence Host)} {r : Host}
  {id : MsgIdentifier}

theorem firstAcks_append_of_settled {x : Occurrence Host} (mem : x ∈ log)
    (settles : x.settles r id = true) : firstAcks (log ++ new) r id = firstAcks log r id := by
  have stops : ¬ ∀ y ∈ log, (!y.settles r id) = true := by
    intro all
    have going := all x mem
    rw [settles] at going
    cases going
  have same : (log ++ new).takeWhile (fun y => !y.settles r id) =
      log.takeWhile fun y => !y.settles r id := by
    rw [List.takeWhile_append, if_neg]
    intro whole
    rw [← List.takeWhile_eq_self_iff] at stops
    exact stops ((List.takeWhile_prefix _).eq_of_length whole)
  rw [firstAcks, same, firstAcks]

theorem firstAcks_append_of_unsettled (new : List (Occurrence Host))
    (unsettled : ∀ x ∈ log, x.settles r id = false) :
    firstAcks (log ++ new) r id = firstAcks log r id ++ firstAcks new r id := by
  have going : ∀ x ∈ log, (!x.settles r id) = true := by
    intro x mem
    rw [unsettled x mem]
    rfl
  rw [firstAcks, List.takeWhile_append_of_pos going, List.filterMap_append, firstAcks, firstAcks,
    List.takeWhile_eq_self_iff.mpr going]

theorem mem_firstAcks {ackMsg : AckMessage} (mem : ackMsg ∈ firstAcks log r id) :
    .answered r ackMsg ∈ log ∧ ackMsg.ident = id := by
  obtain ⟨x, inLog, found⟩ := List.mem_filterMap.mp mem
  have inLog := (List.takeWhile_prefix _).subset inLog
  cases x with
  | answered r' m =>
      unfold Occurrence.ackOf at found
      dsimp only at found
      split at found
      · rename_i same
        cases found
        exact ⟨same.1 ▸ inLog, same.2⟩
      · cases found
  | handled r' m => cases found

theorem mem_firstAcks_of_unsettled (unsettled : ∀ x ∈ log, x.settles r id = false)
    {ackMsg : AckMessage} (mem : .answered r ackMsg ∈ log) (same : ackMsg.ident = id) :
    ackMsg ∈ firstAcks log r id := by
  have going : ∀ x ∈ log, (!x.settles r id) = true := by
    intro x mem
    rw [unsettled x mem]
    rfl
  rw [firstAcks, List.takeWhile_eq_self_iff.mpr going]
  refine List.mem_filterMap.mpr ⟨_, mem, ?_⟩
  unfold Occurrence.ackOf
  dsimp only
  rw [if_pos ⟨rfl, same⟩]

end FirstAcks

namespace System

variable {Host : Type} [DecidableEq Host] {D : Deployment Host} {s s' : System Host}

/-! ## What a step adds to the log -/

/-- What has happened in a step from `s` to `s'` accounts for what has changed. -/
structure Logs (D : Deployment Host) (s s' : System Host) (new : List (Occurrence Host)) :
    Prop where
  answered : ∀ r ackMsg, .answered r ackMsg ∈ new →
    s'.Accepted r ackMsg.ident ackMsg.proposedSeq ∧ ackMsg.proposer = D.processIdentifier r
  accepted : ∀ r id a, s'.Accepted r id a → s.Accepted r id a ∨
    ∃ ackMsg, .answered r ackMsg ∈ new ∧ ackMsg.ident = id ∧ ackMsg.proposedSeq = a
  settled : ∀ r id, s'.Settled r id → s.Settled r id ∨ ∃ x ∈ new, x.settles r id = true
  handled : ∀ r m, .handled r m ∈ new → m ∈ s.finals
  single : new.length ≤ 1

/-- Nothing that concerns the queues has happened. -/
theorem Logs.nothing (same : SameQueues s s') : Logs D s s' [] where
  answered _ _ mem := by cases mem
  accepted r id a accepted := by
    rw [Accepted, same.accepted] at accepted
    exact Or.inl accepted
  settled r id settled := Or.inl (same.settled.mp settled)
  handled _ _ mem := by cases mem
  single := Nat.zero_le _

/-- A datagram is handled that is not a `SeqMessage`. -/
theorem Logs.of_answers {p : Host} {packet : Packet} {o : Outcome Host}
    (progress : Progress D (some (p, packet)) s (s.commit p o))
    (notSeq : ∀ m, packet ≠ .seq m) (single : (answersIn p o.sent).length ≤ 1)
    (answered : ∀ ackMsg, .answered p ackMsg ∈ answersIn p o.sent →
      (s.commit p o).Accepted p ackMsg.ident ackMsg.proposedSeq ∧
        ackMsg.proposer = D.processIdentifier p)
    (accepted : ∀ x ∈ o.accepted, ∃ ackMsg, .answered p ackMsg ∈ answersIn p o.sent ∧
      ackMsg.ident = x.1 ∧ ackMsg.proposedSeq = x.2) :
    Logs D s (s.commit p o) (answersIn p o.sent) := by
  have answers : ∀ x ∈ answersIn p o.sent, ∃ ackMsg, x = .answered p ackMsg := by
    intro x mem
    obtain ⟨⟨_, packet⟩, _, found⟩ := List.mem_filterMap.mp mem
    cases packet with
    | ack m => exact ⟨m, (Option.some.inj found).symm⟩
    | data m => cases found
    | seq m => cases found
    | seqAck m => cases found
  refine ⟨fun r ackMsg mem => ?_, fun r id a mem => ?_, fun r id settled => ?_,
    fun r m mem => ?_, single⟩
  · obtain ⟨m, same⟩ := answers _ mem
    cases same
    exact answered ackMsg mem
  · rw [Accepted, commit_accepted] at mem
    rcases List.mem_append.mp mem with old | new
    · exact Or.inl old
    · obtain ⟨x, inOutcome, same⟩ := List.mem_map.mp new
      cases same
      exact Or.inr (accepted x inOutcome)
  · rcases progress.settled_cases settled with old | ⟨f, into, _⟩
    · exact Or.inl old
    · cases into
      exact (notSeq f rfl).elim
  · obtain ⟨_, same⟩ := answers _ mem
    cases same

theorem Sound.logs_of_packet (sound : Sound D s) {src dst : Host} (hsrc : src ∈ D.hostnames)
    (hdst : dst ∈ D.hostnames) {packet : Packet} (holds : s.PacketSound D src dst packet)
    {o : Outcome Host} (handled : (s.service dst).processPacket D dst packet = some o) :
    Logs D s (s.commit dst o) (match packet with
      | .seq m => [.handled dst m]
      | _ => answersIn dst o.sent) := by
  have progress := sound.progress_of_packet hsrc hdst holds handled
  cases packet with
  | data m =>
      have sender := Hostfile.recipientIdMap_of_eq hsrc ((sound.sender src hsrc).own m holds)
      rw [MulticastService.processPacket] at handled
      by_cases pending : m.ident ∈ (s.service dst).holdBackQueue.pendingMsgSet
      · rw [MulticastService.processDataMsg_of_pending sender pending,
          Option.map_eq_some_iff] at handled
        obtain ⟨ack, found, rfl⟩ := handled
        obtain ⟨_, proposer, accepted⟩ := (sound.receiver dst hdst).cached _ _ found
        refine .of_answers progress (fun _ same => by cases same) (le_refl _) ?_ ?_
        · intro ackMsg mem
          cases List.mem_singleton.mp mem
          obtain ⟨ident, _, _⟩ := (sound.receiver dst hdst).cached _ _ found
          rw [← ident] at accepted
          exact ⟨List.mem_append_left _ accepted, proposer⟩
        · intro x mem
          cases mem
      · rw [MulticastService.processDataMsg_of_new sender pending, Option.some.injEq] at handled
        subst handled
        refine .of_answers progress (fun _ same => by cases same) (le_refl _) ?_ ?_
        · intro ackMsg mem
          cases List.mem_singleton.mp mem
          exact ⟨List.mem_append_right _ (List.mem_singleton_self _), rfl⟩
        · intro x mem
          cases List.mem_singleton.mp mem
          exact ⟨_, List.mem_singleton_self _, rfl, rfl⟩
  | ack m =>
      have silent : o.sent = [] ∧ o.accepted = [] := by
        rw [MulticastService.processPacket] at handled
        rcases (s.service dst).processAckMsg_cases (Hostfile.recipientIdMap_of_eq hsrc holds.1) with
          ⟨_, eq⟩ | ⟨_, ⟨_, eq⟩ | ⟨_, f, _, eq⟩⟩ <;>
        · rw [eq, Option.some.injEq] at handled
          subst handled
          exact ⟨rfl, rfl⟩
      refine .of_answers progress (fun _ same => by cases same) ?_ ?_ ?_
      · rw [silent.1]
        exact Nat.zero_le _
      · rw [silent.1]
        intro ackMsg mem
        cases mem
      · rw [silent.2]
        intro x mem
        cases mem
  | seq m =>
      rw [MulticastService.processPacket,
        MulticastService.processSeqMsg_eq (Hostfile.recipientIdMap_of_eq hsrc holds.2),
        Option.some.injEq] at handled
      subst handled
      refine ⟨fun r ackMsg mem => ?_, fun r id a mem => ?_, fun r id settled => ?_,
        fun r m' mem => ?_, le_refl _⟩
      · cases List.mem_singleton.mp mem
      · rw [Accepted, commit_accepted] at mem
        exact Or.inl (by simpa [Accepted] using mem)
      · rcases progress.settled_cases settled with old | ⟨f, into, same⟩
        · exact Or.inl old
        · cases into
          exact Or.inr ⟨_, List.mem_singleton_self _, decide_eq_true ⟨rfl, same⟩⟩
      · cases List.mem_singleton.mp mem
        exact holds.1
  | seqAck m =>
      rw [MulticastService.processPacket,
        MulticastService.processSeqAckMsg_eq (Hostfile.recipientIdMap_of_eq hsrc holds.1),
        Option.some.injEq] at handled
      subst handled
      refine .of_answers progress (fun _ same => by cases same) (Nat.zero_le _) ?_ ?_
      · intro ackMsg mem
        cases mem
      · intro x mem
        cases mem

theorem Logs.of_same {t : System Host} {new : List (Occurrence Host)} (same : SameQueues s t)
    (finals : t.finals = s.finals) (logs : Logs D t s' new) : Logs D s s' new := by
  obtain ⟨answered, accepted, settled, handled, single⟩ := logs
  refine ⟨answered, ?_, ?_, finals ▸ handled, single⟩
  · simpa only [Accepted, same.accepted] using accepted
  · simpa only [same.settled] using settled

/-- The logs of the system only grow. -/
theorem Progress.keeps {handled : Option (Host × Packet)} (progress : Progress D handled s s') :
    (∀ x ∈ s.accepted, x ∈ s'.accepted) ∧ ∀ f ∈ s.finals, f ∈ s'.finals := by
  cases progress with
  | quiet same finals =>
      rw [same.accepted, finals]
      exact ⟨fun _ mem => mem, fun _ mem => mem⟩
  | accept _ _ _ eq =>
      rw [eq, commit_accepted, commit_finals]
      exact ⟨fun _ mem => List.mem_append_left _ mem, fun _ mem => List.mem_append_left _ mem⟩
  | choose same finals =>
      rw [same.accepted, finals]
      exact ⟨fun _ mem => mem, fun _ mem => List.mem_append_left _ mem⟩
  | finish _ _ _ eq =>
      rw [eq, commit_accepted, commit_finals]
      exact ⟨fun _ mem => List.mem_append_left _ mem, fun _ mem => List.mem_append_left _ mem⟩

theorem Sound.keeps (sound : Sound D s) {e : Event Host} (taken : s.step D e = some s') :
    (∀ x ∈ s.accepted, x ∈ s'.accepted) ∧ ∀ f ∈ s.finals, f ∈ s'.finals := by
  obtain ⟨t, _, same, finals, progress⟩ := sound.progress taken
  rw [← same.accepted, ← finals]
  exact progress.keeps

/-- **What a step adds to the log.** -/
theorem Sound.logs (sound : Sound D s) {e : Event Host} (taken : s.step D e = some s') :
    Logs D s s' (s.occurrences D e) := by
  cases e with
  | receive src dst i copy =>
      obtain ⟨_, packet, found, ⟨o, handled, rfl⟩ | ⟨thrown, rfl⟩⟩ := step_receive taken
      · obtain ⟨hsrc, hdst, holds⟩ := sound.packets src dst packet (List.mem_of_getElem? found)
        have into : s.incoming (.receive src dst i copy) = some (dst, packet) := by
          rw [incoming, found]
          rfl
        have shrunk := sound.setChannel (leftover_subset (s.channel src dst) i copy)
        have logs := shrunk.logs_of_packet hsrc hdst (by cases packet <;> exact holds) handled
        have same : SameQueues s (s.setChannel src dst (leftover (s.channel src dst) i copy)) :=
          ⟨fun _ => rfl, fun _ => rfl, fun _ => rfl, rfl, rfl⟩
        unfold occurrences
        rw [into]
        dsimp only
        rw [handled]
        cases packet <;> exact logs.of_same same rfl
      · have into : s.incoming (.receive src dst i copy) = some (dst, packet) := by
          rw [incoming, found]
          rfl
        unfold occurrences
        rw [into]
        dsimp only
        rw [thrown]
        cases packet <;> exact .nothing ⟨fun _ => rfl, fun _ => rfl, fun _ => rfl, rfl, rfl⟩
  | multicast p data =>
      obtain ⟨t, _, same, _, progress⟩ := sound.progress taken
      cases progress with
      | quiet same' _ => exact .of_same same ‹_› (.nothing same')
      | accept into => cases into
      | choose same' _ => exact .of_same same ‹_› (.nothing same')
      | finish into => cases into
  | sendData p i recipient =>
      obtain ⟨_, _, _, _, rfl⟩ := step_sendData taken
      exact .nothing ⟨fun _ => rfl, fun _ => rfl, fun _ => rfl, rfl, rfl⟩
  | sendSeq p i recipient =>
      obtain ⟨_, _, _, _, rfl⟩ := step_sendSeq taken
      exact .nothing ⟨fun _ => rfl, fun _ => rfl, fun _ => rfl, rfl, rfl⟩
  | lose src dst i =>
      rw [step_lose taken]
      exact .nothing ⟨fun _ => rfl, fun _ => rfl, fun _ => rfl, rfl, rfl⟩

/-! ## A new final number -/

/-- The number chosen by `createSeqMessage` is not below any of the proposals, as the comparator
has it. -/
theorem not_below_of_created {ackMsg : AckMessage} {proposedSeqIds : ProposedSeqIds}
    {f : SeqMessage}
    (created : MulticastService.createSeqMessage ackMsg proposedSeqIds = some f) {j a : UInt32}
    (entry : proposedSeqIds.lookup j = some a) :
    proposalLt ⟨f.finalSeqProposer, f.finalSeq⟩ ⟨j, a⟩ = false := by
  obtain ⟨largest, found, rfl⟩ := Option.map_eq_some_iff.mp created
  rw [keyedBy_proposalLt.not_lt_iff]
  exact le_maxElement keyedBy_proposalLt found _ (AList.mem_lookup_iff.mp entry)

/-- A final number is not below a proposal of every host. -/
def Dominates (D : Deployment Host) (s : System Host) (f : SeqMessage) : Prop :=
  ∀ r ∈ D.hostnames, ∃ a, s.Accepted r f.ident a ∧
    proposalLt ⟨f.finalSeqProposer, f.finalSeq⟩ ⟨D.processIdentifier r, a⟩ = false

/-- The number that the last answer fixes is not below the proposals that the sender has
counted. -/
theorem SenderSound.dominates {p src : Host} (h : s.SenderSound D p) (hsrc : src ∈ D.hostnames)
    {m : AckMessage} (packet : s.PacketSound D src p (.ack m))
    (complete : ((s.service p).proposalsWith m).entries.length = D.hostnames.length)
    {f : SeqMessage}
    (created : MulticastService.createSeqMessage m ((s.service p).proposalsWith m) = some f) :
    s.Dominates D f := by
  obtain ⟨fsender, fmsgId, _⟩ := MulticastService.createSeqMessage_spec created
  have ident : f.ident = ⟨m.msgId, D.processIdentifier p⟩ := by
    rw [SeqMessage.ident, fmsgId, fsender, packet.2.1]
  intro r hr
  obtain ⟨a, entry⟩ := h.exists_proposal hsrc packet complete hr
  obtain ⟨r', hr', id, accepted⟩ := h.proposalsWith hsrc packet entry
  rw [Hostfile.processIdentifier_inj hr' hr id] at accepted
  exact ⟨a, ident ▸ accepted, not_below_of_created created entry⟩

theorem Dominates.mono {f : SeqMessage} (h : s.Dominates D f)
    (accepted : ∀ x ∈ s.accepted, x ∈ s'.accepted) : s'.Dominates D f := by
  intro r hr
  obtain ⟨a, proposed, below⟩ := h r hr
  exact ⟨a, accepted _ proposed, below⟩

/-- What a handler queues is a final number that dominates. -/
theorem Sound.dominates_of_packet (sound : Sound D s) {src dst : Host} (hsrc : src ∈ D.hostnames)
    (hdst : dst ∈ D.hostnames) {packet : Packet} (holds : s.PacketSound D src dst packet)
    {o : Outcome Host} (handled : (s.service dst).processPacket D dst packet = some o)
    {f : SeqMessage} (queued : f ∈ o.queued) : s.Dominates D f := by
  cases packet with
  | data m =>
      simp only [MulticastService.processPacket, MulticastService.processDataMsg,
        Option.bind_eq_bind, Option.bind_eq_some_iff, Option.some.injEq] at handled
      obtain ⟨_, _, _, _, rfl⟩ := handled
      cases queued
  | ack m =>
      rw [MulticastService.processPacket] at handled
      rcases (s.service dst).processAckMsg_cases (Hostfile.recipientIdMap_of_eq hsrc holds.1) with
        ⟨_, eq⟩ | ⟨_, ⟨_, eq⟩ | ⟨complete, g, created, eq⟩⟩
      · rw [eq, Option.some.injEq] at handled
        subst handled
        cases queued
      · rw [eq, Option.some.injEq] at handled
        subst handled
        cases queued
      · rw [eq, Option.some.injEq] at handled
        subst handled
        cases List.mem_singleton.mp queued
        exact (sound.sender dst hdst).dominates hsrc holds complete created
  | seq m =>
      simp only [MulticastService.processPacket, MulticastService.processSeqMsg,
        Option.bind_eq_bind, Option.bind_eq_some_iff, Option.some.injEq] at handled
      obtain ⟨_, _, rfl⟩ := handled
      cases queued
  | seqAck m =>
      simp only [MulticastService.processPacket, MulticastService.processSeqAckMsg,
        Option.bind_eq_bind, Option.bind_eq_some_iff, Option.some.injEq] at handled
      obtain ⟨_, _, rfl⟩ := handled
      cases queued

/-- A final number that was not there before the step. -/
theorem Sound.dominates_of_step (sound : Sound D s) {e : Event Host}
    (taken : s.step D e = some s') {f : SeqMessage} (final : f ∈ s'.finals)
    (new : f ∉ s.finals) : s'.Dominates D f := by
  have keeps := (sound.keeps taken).1
  cases e with
  | receive src dst i copy =>
      obtain ⟨_, packet, found, ⟨o, handled, rfl⟩ | ⟨_, rfl⟩⟩ := step_receive taken
      · obtain ⟨hsrc, hdst, holds⟩ := sound.packets src dst packet (List.mem_of_getElem? found)
        rw [commit_finals] at final
        have queued := (List.mem_append.mp final).resolve_left new
        exact (sound.dominates_of_packet hsrc hdst holds handled queued).mono keeps
      · exact (new final).elim
  | multicast p data =>
      obtain ⟨_, rfl⟩ := step_multicast taken
      exact (new final).elim
  | sendData p i recipient =>
      obtain ⟨_, _, _, _, rfl⟩ := step_sendData taken
      exact (new final).elim
  | sendSeq p i recipient =>
      obtain ⟨_, _, _, _, rfl⟩ := step_sendSeq taken
      exact (new final).elim
  | lose src dst i =>
      rw [step_lose taken] at final
      exact (new final).elim

/-! ## No number twice -/

theorem Proposals.step (sound : Sound D s) (h : Proposals D s) {e : Event Host}
    (noWrap : s.NoWrap e) (taken : s.step D e = some s') : Proposals D s' := by
  obtain ⟨t, _, same, _, progress⟩ := sound.progress taken
  have before := h.quiet same
  cases progress with
  | quiet same' _ => exact before.quiet same'
  | @accept p src m into _ new eq =>
      rw [eq]
      apply before.accept
      unfold NoWrap at noWrap
      rw [into] at noWrap
      rw [same.latestSeqId]
      rw [same.queue] at new
      exact noWrap new
  | choose same' _ => exact before.quiet same'
  | finish _ _ _ eq =>
      rw [eq]
      exact before.finish

end System

/-! ## The log -/

namespace Recorded

variable {Host : Type} [DecidableEq Host] {D : Deployment Host}

structure Logged (D : Deployment Host) (t : Recorded Host) : Prop where
  answered : ∀ r ackMsg, .answered r ackMsg ∈ t.log →
    t.system.Accepted r ackMsg.ident ackMsg.proposedSeq ∧
      ackMsg.proposer = D.processIdentifier r
  accepted : ∀ r id a, t.system.Accepted r id a →
    ∃ ackMsg, .answered r ackMsg ∈ t.log ∧ ackMsg.ident = id ∧ ackMsg.proposedSeq = a
  settled : ∀ r id, t.system.Settled r id → ∃ x ∈ t.log, x.settles r id = true
  handled : ∀ r m, .handled r m ∈ t.log → m ∈ t.system.finals
  agree : ∀ r ∈ D.hostnames, ∀ id, ∀ a ∈ firstAcks t.log r id, ∀ b ∈ firstAcks t.log r id,
    a.proposedSeq = b.proposedSeq
  dominated : ∀ f ∈ t.system.finals, ∀ r ∈ D.hostnames, firstAcks t.log r f.ident ≠ [] ∧
    ∀ a ∈ firstAcks t.log r f.ident,
      proposalLt ⟨f.finalSeqProposer, f.finalSeq⟩ ⟨a.proposer, a.proposedSeq⟩ = false

omit [DecidableEq Host] in
theorem settled_initial (r : Host) (id : MsgIdentifier) :
    ¬ (System.initial Host).Settled r id := by
  simp [System.initial, System.Settled]

theorem logged_initial : Logged D (initial Host) := by
  refine ⟨?_, ?_, fun r id settled => (settled_initial r id settled).elim, ?_, ?_, ?_⟩ <;>
    simp [initial, System.initial, System.Accepted, firstAcks]

/-- Nothing settles at a host before its first final number is in the log. -/
theorem unsettled_of_log {t : Recorded Host} (settled : ∀ r id, t.system.Settled r id →
      ∃ x ∈ t.log, x.settles r id = true) {r : Host} {id : MsgIdentifier}
    (open' : ∀ x ∈ t.log, x.settles r id = false) : ¬ t.system.Settled r id := by
  intro done
  obtain ⟨x, mem, settles⟩ := settled r id done
  rw [open' x mem] at settles
  cases settles

/-- A host that has not handled a final number of a message has proposed one number for it. -/
theorem agree_of_unsettled {t : Recorded Host} (sound : t.system.Sound D)
    (answered : ∀ r ackMsg, .answered r ackMsg ∈ t.log →
      t.system.Accepted r ackMsg.ident ackMsg.proposedSeq ∧
        ackMsg.proposer = D.processIdentifier r)
    {r : Host} (hr : r ∈ D.hostnames) {id : MsgIdentifier}
    (unsettled : ¬ t.system.Settled r id) {a b : AckMessage} (left : .answered r a ∈ t.log)
    (sameA : a.ident = id) (right : .answered r b ∈ t.log) (sameB : b.ident = id) :
    a.proposedSeq = b.proposedSeq := by
  have acceptedA := (answered r a left).1
  have acceptedB := (answered r b right).1
  rw [sameA] at acceptedA
  rw [sameB] at acceptedB
  rcases (sound.receiver r hr).unsettled id _ acceptedA with settled | ⟨_, _, only⟩
  · exact (unsettled settled).elim
  · exact (only _ acceptedB).symm

/-- What is added to the log is either the first final number or comes before it, or it comes
after it and does not count. -/
theorem firstAcks_step_cases (log : List (Occurrence Host)) {new : List (Occurrence Host)}
    (single : new.length ≤ 1)
    (r : Host) (id : MsgIdentifier) :
    firstAcks (log ++ new) r id = firstAcks log r id ∨
      ∀ x ∈ log ++ new, x.settles r id = false := by
  by_cases before : ∃ x ∈ log, x.settles r id = true
  · obtain ⟨x, mem, settles⟩ := before
    exact Or.inl (firstAcks_append_of_settled mem settles)
  · have open' : ∀ x ∈ log, x.settles r id = false := by
      intro x mem
      by_contra settles
      rw [Bool.not_eq_false] at settles
      exact before ⟨x, mem, settles⟩
    by_cases now : ∃ x ∈ new, x.settles r id = true
    · obtain ⟨x, mem, settles⟩ := now
      left
      obtain ⟨y, rfl⟩ : ∃ y, new = [y] := by
        cases new with
        | nil => cases mem
        | cons y rest =>
            rw [List.length_cons] at single
            exact ⟨y, by rw [List.length_eq_zero_iff.mp (by omega : rest.length = 0)]⟩
      cases List.mem_singleton.mp mem
      have none : firstAcks [x] r id = [] := by
        rw [firstAcks, List.takeWhile_cons, settles]
        rfl
      rw [firstAcks_append_of_unsettled _ open', none, List.append_nil]
    · right
      intro x mem
      rcases List.mem_append.mp mem with old | added
      · exact open' x old
      · by_contra settles
        rw [Bool.not_eq_false] at settles
        exact now ⟨x, added, settles⟩

theorem Logged.step {t t' : Recorded Host} (h : Logged D t) (sound : t.system.Sound D)
    (identified' : t'.system.Identified D) {e : Event Host} (taken : t.step D e = some t') :
    Logged D t' := by
  obtain ⟨s', moved, rfl⟩ := Option.map_eq_some_iff.mp taken
  have logs := sound.logs moved
  obtain ⟨keepsAccepted, keepsFinals⟩ := sound.keeps moved
  have answered : ∀ r ackMsg, .answered r ackMsg ∈ t.log ++ t.system.occurrences D e →
      s'.Accepted r ackMsg.ident ackMsg.proposedSeq ∧
        ackMsg.proposer = D.processIdentifier r := by
    intro r ackMsg mem
    rcases List.mem_append.mp mem with old | new
    · obtain ⟨accepted, proposer⟩ := h.answered r ackMsg old
      exact ⟨keepsAccepted _ accepted, proposer⟩
    · exact logs.answered r ackMsg new
  have accepted : ∀ r id a, s'.Accepted r id a →
      ∃ ackMsg, .answered r ackMsg ∈ t.log ++ t.system.occurrences D e ∧ ackMsg.ident = id ∧
        ackMsg.proposedSeq = a := by
    intro r id a mem
    rcases logs.accepted r id a mem with old | ⟨ackMsg, new, same⟩
    · obtain ⟨ackMsg, inLog, same⟩ := h.accepted r id a old
      exact ⟨ackMsg, List.mem_append_left _ inLog, same⟩
    · exact ⟨ackMsg, List.mem_append_right _ new, same⟩
  have settled : ∀ r id, s'.Settled r id →
      ∃ x ∈ t.log ++ t.system.occurrences D e, x.settles r id = true := by
    intro r id done
    rcases logs.settled r id done with old | ⟨x, new, settles⟩
    · obtain ⟨x, inLog, settles⟩ := h.settled r id old
      exact ⟨x, List.mem_append_left _ inLog, settles⟩
    · exact ⟨x, List.mem_append_right _ new, settles⟩
  have agree : ∀ r ∈ D.hostnames, ∀ id,
      ∀ a ∈ firstAcks (t.log ++ t.system.occurrences D e) r id,
        ∀ b ∈ firstAcks (t.log ++ t.system.occurrences D e) r id,
          a.proposedSeq = b.proposedSeq := by
    intro r hr id a memA b memB
    rcases firstAcks_step_cases t.log logs.single r id with same | open'
    · rw [same] at memA memB
      exact h.agree r hr id a memA b memB
    · obtain ⟨inLogA, sameA⟩ := mem_firstAcks memA
      obtain ⟨inLogB, sameB⟩ := mem_firstAcks memB
      exact agree_of_unsettled identified'.toSound answered hr
        (unsettled_of_log (t := ⟨s', _⟩) settled open') inLogA sameA inLogB sameB
  refine ⟨answered, accepted, settled, fun r m mem => ?_, agree, fun f final r hr => ?_⟩
  · rcases List.mem_append.mp mem with old | new
    · exact keepsFinals m (h.handled r m old)
    · exact keepsFinals m (logs.handled r m new)
  by_cases old : f ∈ t.system.finals
  · -- the number was there: what is added agrees with what was there
    obtain ⟨nonempty, below⟩ := h.dominated f old r hr
    rcases firstAcks_step_cases t.log logs.single r f.ident with same | open'
    · rw [same]
      exact ⟨nonempty, below⟩
    · have split := firstAcks_append_of_unsettled (t.system.occurrences D e)
        fun x mem => open' x (List.mem_append_left _ mem)
      obtain ⟨b, memB⟩ := List.exists_mem_of_ne_nil _ nonempty
      have memB' : b ∈ firstAcks (t.log ++ t.system.occurrences D e) r f.ident := by
        rw [split]
        exact List.mem_append_left _ memB
      refine ⟨List.ne_nil_of_mem memB', fun a memA => ?_⟩
      have proposerA := (answered r a (mem_firstAcks memA).1).2
      have proposerB := (answered r b (mem_firstAcks memB').1).2
      rw [agree r hr _ a memA b memB', proposerA, ← proposerB]
      exact below b memB
  · -- a new number: its message is settled nowhere
    have open' : ∀ x ∈ t.log ++ t.system.occurrences D e, x.settles r f.ident = false := by
      intro x mem
      by_contra settles
      rw [Bool.not_eq_false] at settles
      cases x with
      | answered r' m => cases settles
      | handled r' m =>
          have same : m.ident = f.ident := (of_decide_eq_true settles).2
          have final' : m ∈ t.system.finals := by
            rcases List.mem_append.mp mem with inLog | new
            · exact h.handled r' m inLog
            · exact logs.handled r' m new
          exact old (identified'.finalUnique final (keepsFinals m final') same.symm ▸ final')
    obtain ⟨a, proposed, below⟩ := sound.dominates_of_step moved final old r hr
    obtain ⟨b, inLog, same, rfl⟩ := accepted r _ _ proposed
    have memB := mem_firstAcks_of_unsettled open' inLog same
    refine ⟨List.ne_nil_of_mem memB, fun a memA => ?_⟩
    rw [agree r hr _ a memA b memB, (answered r a (mem_firstAcks memA).1).2]
    exact below

theorem reachable_of_reach {t : Recorded Host}
    (reach : Reach (step D) NoWrap (initial Host) t) : t.system.Reachable D := by
  induction reach with
  | start => exact .start
  | next _ _ taken ih =>
      obtain ⟨s', moved, rfl⟩ := Option.map_eq_some_iff.mp taken
      exact ih.next trivial moved

/-- The log changes nothing. -/
theorem exists_of_reach {s : System Host}
    (reach : Reach (System.step D) System.NoWrap (System.initial Host) s) :
    ∃ t, Reach (step D) NoWrap (initial Host) t ∧ t.system = s := by
  refine reach.simulated (R := fun s (t : Recorded Host) => t.system = s) rfl ?_
  rintro _ t e s' _ _ rfl noWrap taken
  have logged : t.step D e = some ⟨s', t.log ++ t.system.occurrences D e⟩ := by
    rw [Recorded.step, taken]
    rfl
  exact ⟨_, .next .start noWrap logged, rfl⟩

theorem proposals_of_reach {t : Recorded Host} (reach : Reach (step D) NoWrap (initial Host) t) :
    t.system.Proposals D := by
  induction reach with
  | start => exact System.proposals_initial
  | next before noWrap taken ih =>
      have sound := System.sound_of_reachable (reachable_of_reach before)
      obtain ⟨s', moved, rfl⟩ := Option.map_eq_some_iff.mp taken
      exact System.Proposals.step sound ih noWrap moved

theorem logged_of_reach {t : Recorded Host} (reach : Reach (step D) NoWrap (initial Host) t)
    (few : t.system.FewMulticasts D) : Logged D t := by
  induction reach with
  | start => exact logged_initial
  | next before noWrap taken ih =>
      have reachable := reachable_of_reach (before.next noWrap taken)
      obtain ⟨s', moved, rfl⟩ := Option.map_eq_some_iff.mp taken
      exact (ih (few.of_step moved)).step (System.sound_of_reachable (reachable_of_reach before))
        (System.identified_of_reachable reachable few) taken

/-- **Final keys.**  The answers of a host for a message agree until it handles the final
number, which no such answer of any host exceeds; and no two messages have the same final
number and proposer.  This is so as long as neither the numbers nor the identifiers wrap. -/
theorem final_keys (D : Deployment Host) {t : Recorded Host}
    (reach : Reach (step D) NoWrap (initial Host) t) (few : t.system.FewMulticasts D) :
    (∀ r ∈ D.hostnames, ∀ id, ∀ a ∈ firstAcks t.log r id, ∀ b ∈ firstAcks t.log r id,
      a.proposedSeq = b.proposedSeq) ∧
    (∀ f ∈ t.system.finals, ∀ r ∈ D.hostnames, firstAcks t.log r f.ident ≠ [] ∧
      ∀ a ∈ firstAcks t.log r f.ident, a.proposedSeq ≤ f.finalSeq ∧
        proposalLt ⟨f.finalSeqProposer, f.finalSeq⟩ ⟨a.proposer, a.proposedSeq⟩ = false) ∧
    (t.system.finals.map fun f => (f.finalSeq, f.finalSeqProposer)).Nodup ∧
    ∀ f ∈ t.system.finals, ∀ g ∈ t.system.finals, f.finalSeq = g.finalSeq →
      f.finalSeqProposer = g.finalSeqProposer → f.ident = g.ident := by
  have logged := logged_of_reach reach few
  have proposals := proposals_of_reach reach
  have identified := System.identified_of_reachable (reachable_of_reach reach) few
  have idents : ∀ f ∈ t.system.finals, ∀ g ∈ t.system.finals, f.finalSeq = g.finalSeq →
      f.finalSeqProposer = g.finalSeqProposer → f.ident = g.ident :=
    fun f hf g hg => proposals.ident_of_number identified.toSound hf hg
  refine ⟨logged.agree, fun f final r hr => ?_, ?_, idents⟩
  · obtain ⟨nonempty, below⟩ := logged.dominated f final r hr
    refine ⟨nonempty, fun a mem => ⟨?_, below a mem⟩⟩
    have key := (keyedBy_proposalLt.not_lt_iff _ _).mp (below a mem)
    rw [Prod.Lex.le_iff] at key
    rw [UInt32.le_iff_toNat_le]
    rcases key with less | same
    · exact le_of_lt less
    · exact le_of_eq same.1
  · refine (List.Nodup.of_map _ identified.finalIdents).map_on fun f hf g hg same => ?_
    obtain ⟨seq, proposer⟩ := Prod.mk.inj same
    exact identified.finalUnique hf hg (idents f hf g hg seq proposer)

end Recorded

/-- The second host answers two copies of a `DataMessage` before it handles the final number. -/
def answeringRun : List (Event Bool) :=
  [.multicast false 7, .sendData false 0 false, .sendData false 0 true, .sendData false 0 true,
    .receive false false 0 false, .receive false true 0 false, .receive false true 0 false,
    .receive false false 0 false, .receive true false 0 false, .sendSeq false 0 true,
    .receive false true 0 false]

theorem final_keys_answeringRun : ∃ t : Recorded Bool,
    (t.system.finals.length = 1 ∧ (firstAcks t.log true ⟨1, 1⟩).length = 2) ∧
      (∀ a ∈ firstAcks t.log true ⟨1, 1⟩, ∀ b ∈ firstAcks t.log true ⟨1, 1⟩,
        a.proposedSeq = b.proposedSeq) ∧
      ∀ f ∈ t.system.finals, ∀ a ∈ firstAcks t.log true f.ident, a.proposedSeq ≤ f.finalSeq := by
  have keys := Recorded.final_keys twoHosts (Reach.of_isSome
    (show allowedAlong (Recorded.step twoHosts) Recorded.NoWrap (Recorded.initial Bool)
      answeringRun by decide +kernel) (by decide +kernel)) (by decide +kernel)
  refine ⟨_, by decide +kernel, keys.1 true (by decide) _, fun f hf a ha => ?_⟩
  exact ((keys.2.1 f hf true (by decide)).2 a ha).1

/-- The second host's only answer and a copy of the first host's own one are used up; another copy
is on its way. -/
def countedRun : List (Event Bool) :=
  [.multicast false 7, .sendData false 0 false, .sendData false 0 true,
    .receive false false 0 false, .receive false true 0 false,
    .receive false false 0 true, .receive true false 0 false]

/-- A second message of the first host with the identifier of the first.  Nobody has received it
when the copy completes its proposals, which are those for the first message. -/
def countedAgainRun : List (Event Bool) :=
  [.multicast false 8, .receive false false 0 false]

def counted : System Bool :=
  (replay (System.step twoHosts) (System.initial Bool) countedRun).get (by decide +kernel)

def countedAgain : System Bool :=
  (replay (System.step twoHosts) (counted.rewound false) countedAgainRun).get (by decide +kernel)

/-- Without a bound on the calls of `multicast`, two messages can have the same key. -/
theorem final_keys_repeat :
    ¬ ∀ t : Recorded Bool,
      Reach (Recorded.step twoHosts) Recorded.NoWrap (Recorded.initial Bool) t →
        (t.system.finals.map fun f => (f.finalSeq, f.finalSeqProposer)).Nodup := by
  intro distinct
  have again : Reach (System.step twoHosts)
      (fun t e => t.NoWrap e ∧ t.AnswersOnly false (counted.service false).msgId e)
      (counted.rewound false) countedAgain := Reach.of_isSome (by decide +kernel) _
  obtain ⟨s, held, reach, padded⟩ := System.exists_reach_again (fun _ _ => trivial)
    System.NoWrap.of_padded (Reach.of_isSome (by decide +kernel) _) (by decide +kernel)
    (by decide +kernel) again
  obtain ⟨t, recorded, rfl⟩ := Recorded.exists_of_reach reach
  have keys := distinct t recorded
  rw [padded.finals] at keys
  exact absurd keys (by decide +kernel)

end GroupComm.Lab1
