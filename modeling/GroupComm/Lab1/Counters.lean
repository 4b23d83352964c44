import GroupComm.Lab1.TotalOrder

/-!
# How far the sequence numbers are

A host counts on from the largest number that it has proposed or seen as a final number, so its
counter can be ahead of all messages that it knows of.  But every number that is around was
proposed with the acceptance of some message: counters and numbers are at most the number of
acceptances at all hosts together (`BehindTraffic`), under any network and with counters that
wrap.

`latestSeqId + 1` does not wrap as long as the next acceptance is not the 2^32nd
(`seq_ids_behind_traffic`).  It can wrap right before that one: `counter_wraps` has a host that
has accepted 2^32 - 1 of its own messages.
-/

namespace GroupComm.Lab1

open Transition

namespace System

variable {Host : Type} [DecidableEq Host] {D : Deployment Host} {s s' : System Host}

/-- The total number of messages accepted so far is a bound of every counter and number. -/
structure BehindTraffic (D : Deployment Host) (s : System Host) : Prop where
  latestSeqId : ∀ p ∈ D.hostnames, (s.service p).latestSeqId.toNat ≤ s.accepted.length
  /-- The numbers proposed, also those in flight, in a cache or waiting for the other proposals. -/
  proposed : ∀ x ∈ s.accepted, x.proposedSeq.toNat ≤ s.accepted.length
  acksInFlight : ∀ a b m, .ack m ∈ s.channel a b → m.proposedSeq.toNat ≤ s.accepted.length
  cached : ∀ p ∈ D.hostnames, ∀ id ack, (s.service p).ackMessageCache id = some ack →
    ack.proposedSeq.toNat ≤ s.accepted.length
  stored : ∀ p ∈ D.hostnames, ∀ k ids j a, (s.service p).proposedSeqIdMap k = some ids →
    ids.lookup j = some a → a.toNat ≤ s.accepted.length
  /-- The final numbers chosen, also those in flight, still to be sent or in a hold-back queue. -/
  final : ∀ f ∈ s.finals, f.finalSeq.toNat ≤ s.accepted.length
  seqsInFlight : ∀ a b m, .seq m ∈ s.channel a b → m.finalSeq.toNat ≤ s.accepted.length
  unsent : ∀ p ∈ D.hostnames, ∀ h ∈ (s.service p).seqMsgSender.msgList,
    h.orgMsg.finalSeq.toNat ≤ s.accepted.length
  held : ∀ p ∈ D.hostnames, ∀ e ∈ (s.service p).holdBackQueue.deque,
    e.finalSeqId.toNat ≤ s.accepted.length

/-! ## Counters and proposals -/

/-- The invariant: all other numbers are copies of these. -/
structure Counted (s : System Host) : Prop where
  latestSeqId : ∀ p, (s.service p).latestSeqId.toNat ≤ s.accepted.length
  proposed : ∀ p id a, s.Accepted p id a → a.toNat ≤ s.accepted.length

omit [DecidableEq Host] in
theorem counted_initial : Counted (initial Host) :=
  ⟨fun _ => Nat.le_refl _, fun _ _ _ accepted => nomatch accepted⟩

omit [DecidableEq Host] in
theorem Counted.quiet (h : Counted s) (same : SameQueues s s') : Counted s' := by
  refine ⟨fun p => ?_, fun p id a => ?_⟩
  · rw [same.latestSeqId, same.accepted]
    exact h.latestSeqId p
  · rw [Accepted, same.accepted]
    exact h.proposed p id a

/-- A final number is one of the proposals. -/
theorem Counted.final (h : Counted s) (sound : Sound D s) {f : SeqMessage} (mem : f ∈ s.finals) :
    f.finalSeq.toNat ≤ s.accepted.length := by
  obtain ⟨r, _, _, accepted⟩ := (sound.finalSound f mem).chosen
  exact h.proposed r _ _ accepted

/-- The counter of the host goes on by one at most, and so does the number of acceptances. -/
theorem Counted.accept (h : Counted s) {p src : Host} {m : DataMessage} :
    Counted (s.commit p (s.acceptance D p src m)) := by
  have length : (s.commit p (s.acceptance D p src m)).accepted.length =
      s.accepted.length + 1 := by
    rw [commit_accepted, List.length_append]
    rfl
  have next : ((s.service p).latestSeqId + 1).toNat ≤ s.accepted.length + 1 :=
    Nat.le_trans (toNat_add_one_le _) (Nat.succ_le_succ (h.latestSeqId p))
  refine ⟨fun q => ?_, fun q id a accepted => ?_⟩
  · rw [length]
    by_cases same : q = p
    · subst same
      rw [commit_service_self]
      exact next
    · rw [commit_service_of_ne same]
      exact Nat.le_succ_of_le (h.latestSeqId q)
  · rw [length]
    rcases accepted_acceptance.mp accepted with old | ⟨_, _, rfl⟩
    · exact Nat.le_succ_of_le (h.proposed q id a old)
    · exact next

/-- A counter that jumps to a final number. -/
theorem Counted.finish (h : Counted s) (sound : Sound D s) {p src : Host} {m : SeqMessage}
    (final : m ∈ s.finals) : Counted (s.commit p (s.finishing D p src m)) := by
  have log : (s.commit p (s.finishing D p src m)).accepted = s.accepted := by
    rw [commit_accepted]
    exact List.append_nil _
  refine ⟨fun q => ?_, fun q id a => ?_⟩
  · rw [latestSeqId_finishing, log]
    split
    · exact Nat.max_le.mpr ⟨h.latestSeqId q, h.final sound final⟩
    · exact h.latestSeqId q
  · rw [Accepted, log]
    exact h.proposed q id a

theorem Counted.step (h : Counted s) (sound : Sound D s) {handled : Option (Host × Packet)}
    (progress : Progress D handled s s') : Counted s' := by
  cases progress with
  | quiet same _ => exact h.quiet same
  | accept _ _ _ eq =>
      subst eq
      exact h.accept
  | choose same _ => exact h.quiet same
  | finish _ _ final eq =>
      subst eq
      exact h.finish sound final

theorem counted_of_reachable (reachable : s.Reachable D) : Counted s := by
  refine reachable.invariant_with (fun _ before => sound_of_reachable before) counted_initial ?_
  intro s e s' sound h _ taken
  obtain ⟨t, soundT, same, _, progress⟩ := sound.progress taken
  exact (h.quiet same).step soundT progress

/-! ## All numbers -/

theorem Counted.behindTraffic (h : Counted s) (sound : Sound D s) : s.BehindTraffic D where
  latestSeqId p _ := h.latestSeqId p
  proposed x mem := h.proposed x.host x.ident x.proposedSeq mem
  acksInFlight a b m mem := by
    obtain ⟨_, _, _, _, accepted⟩ := sound.packets a b _ mem
    exact h.proposed a _ _ accepted
  cached p hp id ack found := by
    obtain ⟨_, _, accepted⟩ := (sound.receiver p hp).cached id ack found
    exact h.proposed p id _ accepted
  stored p hp k ids j a found entry := by
    obtain ⟨r, _, _, accepted⟩ := (sound.sender p hp).proposed k ids j a found entry
    exact h.proposed r _ a accepted
  final f mem := h.final sound mem
  seqsInFlight a b m mem := by
    obtain ⟨_, _, final, _⟩ := sound.packets a b _ mem
    exact h.final sound final
  unsent p hp holder mem := h.final sound ((sound.sender p hp).seqHeld holder mem).1.1
  held p hp e mem := by
    cases deliverable : e.deliverable with
    | true =>
        obtain ⟨f, final, _, same, _⟩ := (sound.receiver p hp).final e mem deliverable
        rw [← same]
        exact h.final sound final
    | false =>
        exact h.proposed p _ _ ((sound.receiver p hp).proposal e mem deliverable).1

/-- **Sequence numbers.**  Under any network, all of them are at most the number of acceptances,
and the counter does not wrap up to the 2^32nd acceptance. -/
theorem seq_ids_behind_traffic (D : Deployment Host) {s : System Host}
    (reachable : s.Reachable D) :
    s.BehindTraffic D ∧ (s.accepted.length + 1 < UInt32.size → ∀ p ∈ D.hostnames,
      ((s.service p).latestSeqId + 1).toNat = (s.service p).latestSeqId.toNat + 1) := by
  have counted := counted_of_reachable reachable
  refine ⟨counted.behindTraffic (sound_of_reachable reachable), fun more p _ => ?_⟩
  exact toNat_add_one (Nat.lt_of_le_of_lt (Nat.succ_le_succ (counted.latestSeqId p)) more)

theorem seq_ids_behind_crossed : crossed.BehindTraffic twoHosts ∧
    (crossed.accepted.length + 1 < UInt32.size → ∀ p ∈ twoHosts.hostnames,
      ((crossed.service p).latestSeqId + 1).toNat = (crossed.service p).latestSeqId.toNat + 1) :=
  seq_ids_behind_traffic twoHosts crossed_reachable

/-! ## A host that multicasts to itself -/

/-- A host multicasts a message and accepts it: three steps. -/
theorem Identified.accepts_own (h : Identified D s) {p : Host} (running : s.running D p)
    (few : (s.multicasts p).length + 1 < UInt32.size) :
    ∃ s', Reach (System.step D) Always s s' ∧ s'.running D p ∧
      (∀ q, (s'.multicasts q).length ≤ (s.multicasts q).length + 1) ∧
      (s'.service p).latestSeqId = (s.service p).latestSeqId + 1 ∧
      s'.accepted.length = s.accepted.length + 1 := by
  obtain ⟨hp, runs⟩ := running
  let m := (s.service p).createDataMessage D p 0
  let s₁ : System Host := s.multicasting D p 0
  let s₂ : System Host := s₁.post p [(p, .data m)]
  let s₃ : System Host :=
    s₂.setChannel p p (leftover (s₂.channel p p) (s.channel p p).length false)
  have service : s₃.service p = (s.service p).multicast D p 0 := multicasting_service_self
  have multicasts : s.step D (.multicast p 0) = some s₁ := if_pos ⟨hp, runs⟩
  have sends : s₁.step D (.sendData p (s.service p).dataMsgSender.msgList.length p) = some s₂ := by
    have last : (s₁.service p).dataMsgSender.msgList[(s.service p).dataMsgSender.msgList.length]? =
        some ⟨m, D.hostnames.toFinset⟩ := by
      rw [multicasting_service_self]
      exact List.getElem?_concat_length
    rw [System.step, last]
    dsimp only
    rw [if_pos ⟨⟨hp, runs⟩, List.mem_toFinset.mpr hp⟩]
  have receives : s₂.step D (.receive p p (s.channel p p).length false) =
      some (s₃.commit p (s₃.acceptance D p p m)) := by
    have last : (s₂.channel p p)[(s.channel p p).length]? = some (.data m) := by
      have channel : s₂.channel p p = s.channel p p ++ [.data m] := by
        change (if p = p then _ else _ : List Packet) = _
        rw [if_pos rfl]
        simp [s₁, System.multicasting]
      rw [channel]
      exact List.getElem?_concat_length
    have new : m.ident ∉ (s₃.service p).holdBackQueue.pendingMsgSet := by
      rw [service]
      intro pending
      obtain ⟨a, accepted⟩ := (h.receiver p hp).pending _ pending
      exact h.not_accepted_next hp few 0 hp a accepted
    exact step_receive_some last ⟨hp, runs⟩ (MulticastService.processDataMsg_of_new
      (Hostfile.recipientIdMap_processIdentifier hp) new)
  refine ⟨_, .next (.next (.next .start trivial multicasts) trivial sends) trivial receives,
    ⟨hp, runs⟩, fun q => ?_, ?_, ?_⟩
  · by_cases same : q = p
    · subst same
      exact Nat.le_of_eq ((congrArg List.length multicasting_multicasts_self).trans
        List.length_append)
    · exact Nat.le_succ_of_le
        (Nat.le_of_eq (congrArg List.length (multicasting_multicasts_of_ne same)))
  · rw [commit_service_self]
    change (s₃.service p).latestSeqId + 1 = _
    rw [service]
    rfl
  · rw [commit_accepted, List.length_append]
    rfl

/-- The counter and the number of acceptances go up to the largest `uint32_t`. -/
theorem exists_counter_eq {p : Host} (hp : p ∈ D.hostnames) :
    ∀ n < UInt32.size, ∃ s : System Host, s.Reachable D ∧ s.running D p ∧
      (∀ q, (s.multicasts q).length ≤ n) ∧ (s.service p).latestSeqId.toNat = n ∧
      s.accepted.length = n := by
  intro n
  induction n with
  | zero => exact fun _ => ⟨_, .start, ⟨hp, rfl⟩, fun _ => Nat.le_refl _, rfl, rfl⟩
  | succ n ih =>
      intro less
      obtain ⟨s, reachable, running, calls, latest, total⟩ := ih (Nat.lt_of_succ_lt less)
      have identified := identified_of_reachable reachable fun q _ =>
        (calls q).trans_lt (Nat.lt_of_succ_lt less)
      obtain ⟨s', reach, running', calls', latest', total'⟩ :=
        identified.accepts_own running ((Nat.succ_le_succ (calls p)).trans_lt less)
      refine ⟨s', reachable.trans reach, running', fun q => ?_, ?_, ?_⟩
      · exact (calls' q).trans (Nat.succ_le_succ (calls q))
      · rw [latest', toNat_add_one (by rw [latest]; exact less), latest]
      · rw [total', total]

end System

/-- A deployment of one host. -/
def oneHost : Deployment Unit where
  hostnames := [()]
  nodup := by decide
  small := by decide
  sort := .insertion PendingMsg.key PendingMsg.keyedBy_key

/-- With 2^32 - 1 acceptances the counter is at its largest value, and the sum wraps. -/
theorem counter_wraps : ¬ ∀ (Host : Type) [DecidableEq Host] (D : Deployment Host)
    (s : System Host), s.Reachable D → s.BehindTraffic D ∧
      (s.accepted.length < UInt32.size → ∀ p ∈ D.hostnames,
        ((s.service p).latestSeqId + 1).toNat = (s.service p).latestSeqId.toNat + 1) := by
  intro always
  have here : () ∈ oneHost.hostnames := List.mem_singleton_self _
  obtain ⟨s, reachable, _, _, latest, total⟩ :=
    System.exists_counter_eq here (UInt32.size - 1) (by decide)
  have sum := (always Unit oneHost s reachable).2 (by rw [total]; decide) () here
  rw [UInt32.toNat_add, UInt32.toNat_one, latest] at sum
  exact absurd sum (by decide)

end GroupComm.Lab1
