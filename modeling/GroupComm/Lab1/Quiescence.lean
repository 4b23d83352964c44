import GroupComm.Lab1.Identifiers
import GroupComm.Lab1.Wrapping
import GroupComm.Lab1.Integrity

/-!
# The multicast over an ordered network

When the network neither reorders nor duplicates what one host sends to another (`Ordered`), and
no identifier comes back, no copy of a `DataMessage` arrives behind the `SeqMessage` of its message
(`InOrder`).  So no message is accepted twice, the cached answers are exactly those to the messages
that are not settled, no handler throws, and once nothing is in flight and nothing is left to send
everybody has delivered everything (`exactly_once_at_quiescence`).
-/

namespace GroupComm.Lab1

open Transition

namespace System

variable {Host : Type} [DecidableEq Host] {D : Deployment Host} {s s' : System Host}

/-! ## The channels -/

/-- The second datagram is not a `DataMessage` whose final number the first one carries. -/
def NotOverdue (x y : Packet) : Prop :=
  ∀ f m, x = .seq f → y = .data m → f.ident ≠ m.ident

/-- A `DataMessage` is on its way only in front of the final number of its message, and only
to hosts where that has not arrived. -/
structure InOrder (D : Deployment Host) (s : System Host) : Prop where
  behind : ∀ a b, (s.channel a b).Pairwise NotOverdue
  awaited : ∀ a, ∀ b ∈ D.hostnames, ∀ m, .data m ∈ s.channel a b → ¬ s.Settled b m.ident

omit [DecidableEq Host] in
theorem inOrder_initial : InOrder D (initial Host) := by
  refine ⟨fun _ _ => .nil, ?_⟩
  simp [initial]

/-- Datagrams are sent behind the others, and `DataMessage`s before their final number is
known. -/
theorem InOrder.append (h : InOrder D s) (sound' : Sound D s') {sent : Host → Host → List Packet}
    (channel : ∀ a b, s'.channel a b = s.channel a b ++ sent a b)
    (fresh : ∀ a b m, .data m ∈ sent a b → ∀ f ∈ s'.finals, f.ident ≠ m.ident)
    (settled : ∀ a, ∀ b ∈ D.hostnames, ∀ m, .data m ∈ s.channel a b → s'.Settled b m.ident →
      s.Settled b m.ident) : InOrder D s' := by
  -- whatever final number is in flight is in the log
  have apart : ∀ a b, ∀ x ∈ s'.channel a b, ∀ y ∈ sent a b, NotOverdue x y := by
    rintro a b x hx y hy f m rfl rfl
    obtain ⟨_, _, final, _⟩ := sound'.packets a b _ hx
    exact fresh a b m hy f final
  refine ⟨fun a b => ?_, fun a b hb m mem done => ?_⟩
  · rw [channel, List.pairwise_append]
    have within : ∀ x, x ∈ s.channel a b ∨ x ∈ sent a b → x ∈ s'.channel a b := fun x hx => by
      rw [channel]
      exact List.mem_append.mpr hx
    exact ⟨h.behind a b,
      List.pairwise_of_forall_mem_list fun x hx y hy => apart a b x (within x (Or.inr hx)) y hy,
      fun x hx y hy => apart a b x (within x (Or.inl hx)) y hy⟩
  · rw [channel, List.mem_append] at mem
    rcases mem with old | new
    · exact h.awaited a b hb m old (settled a b hb m old done)
    · obtain ⟨f, hf, eq⟩ := (sound'.receiver b hb).final_of_settled done
      exact fresh a b m new f hf eq

theorem channel_post (p : Host) (sent : List (Host × Packet)) (a b : Host) :
    (s.post p sent).channel a b =
      s.channel a b ++ if a = p then (sent.filter fun x => x.1 = b).map (·.2) else [] := by
  unfold post
  by_cases same : a = p <;> simp [same]

/-- Taking datagrams away keeps the order. -/
theorem InOrder.setChannel (h : InOrder D s) {src dst : Host} {l : List Packet}
    (sub : l.Sublist (s.channel src dst)) : InOrder D (s.setChannel src dst l) := by
  refine ⟨fun a b => ?_, fun a b hb m mem => ?_⟩
  · by_cases same : a = src ∧ b = dst
    · simp only [System.setChannel, same, and_self, if_true]
      exact (h.behind src dst).sublist sub
    · simp only [System.setChannel, same, if_false]
      exact h.behind a b
  · exact h.awaited a b hb m (mem_channel_setChannel mem sub.subset)

/-- The handlers send answers only. -/
theorem answers_of_processPacket {self : Host} {service : MulticastService Host}
    {packet : Packet} {o : Outcome Host}
    (handled : service.processPacket D self packet = some o) (b : Host) (m : DataMessage) :
    (b, .data m) ∉ o.sent := by
  cases packet with
  | data d =>
      simp only [MulticastService.processPacket, MulticastService.processDataMsg,
        Option.bind_eq_bind, Option.bind_eq_some_iff, Option.some.injEq] at handled
      obtain ⟨_, _, _, _, rfl⟩ := handled
      simp
  | ack a =>
      simp only [MulticastService.processPacket, MulticastService.processAckMsg,
        Option.bind_eq_bind, Option.bind_eq_some_iff] at handled
      obtain ⟨_, _, handled⟩ := handled
      split at handled
      · split at handled
        · obtain ⟨_, _, eq⟩ := Option.bind_eq_some_iff.mp handled
          cases eq
          simp
        · cases handled
          simp
      · cases handled
        simp
  | seq f =>
      simp only [MulticastService.processPacket, MulticastService.processSeqMsg,
        Option.bind_eq_bind, Option.bind_eq_some_iff, Option.some.injEq] at handled
      obtain ⟨_, _, rfl⟩ := handled
      simp
  | seqAck a =>
      simp only [MulticastService.processPacket, MulticastService.processSeqAckMsg,
        Option.bind_eq_bind, Option.bind_eq_some_iff, Option.some.injEq] at handled
      obtain ⟨_, _, rfl⟩ := handled
      simp

omit [DecidableEq Host] in
/-- In an ordered network the datagram that is handled is the first of its channel. -/
theorem ordered_receive {src dst : Host} {i : Nat} {copy : Bool} {packet : Packet}
    (ordered : s.Ordered (.receive src dst i copy))
    (found : (s.channel src dst)[i]? = some packet) :
    s.channel src dst = packet :: leftover (s.channel src dst) i copy := by
  obtain ⟨rfl, rfl⟩ := ordered
  cases channel : s.channel src dst with
  | nil => simp [channel] at found
  | cons first rest =>
      rw [channel, List.getElem?_cons_zero, Option.some.injEq] at found
      subst found
      rfl

theorem InOrder.receive (h : InOrder D s) (sound : Sound D s) (sound' : Sound D s')
    {src dst : Host} {i : Nat} {copy : Bool} (ordered : s.Ordered (.receive src dst i copy))
    (taken : s.step D (.receive src dst i copy) = some s') : InOrder D s' := by
  obtain ⟨_, packet, found, cases⟩ := step_receive taken
  have first := ordered_receive ordered found
  set rest := leftover (s.channel src dst) i copy with hrest
  have sub : rest.Sublist (s.channel src dst) := by
    rw [first]
    exact List.sublist_cons_self _ _
  have shrunk := h.setChannel sub
  obtain ⟨hsrc, hdst, holds⟩ := sound.packets src dst packet (List.mem_of_getElem? found)
  rcases cases with ⟨o, handled, rfl⟩ | ⟨_, rfl⟩
  · have soundT := sound.setChannel sub.subset
    have progress := soundT.progress_of_packet hsrc hdst (by cases packet <;> exact holds) handled
    refine shrunk.append sound' (fun a b => channel_post dst o.sent a b)
      (fun a b m mem => ?_) fun a b hb m mem done => ?_
    · split at mem
      · simp only [List.mem_map, List.mem_filter] at mem
        obtain ⟨⟨c, y⟩, ⟨hy, _⟩, rfl⟩ := mem
        exact (answers_of_processPacket handled c m hy).elim
      · cases mem
    · rcases progress.settled_cases done with old | ⟨f, eq, same⟩
      · exact old
      · -- the final number that is handled stood in front of the `DataMessage`
        cases eq
        obtain ⟨ha, _, multicast⟩ := soundT.packets a dst _ mem
        have sender := (soundT.sender a ha).own m multicast
        simp only [SeqMessage.ident, DataMessage.ident, MsgIdentifier.mk.injEq] at same
        have hosts : a = src := Hostfile.processIdentifier_inj ha hsrc
          (sender.symm.trans (same.2.symm.trans holds.2))
        subst hosts
        have behind := h.behind a dst
        rw [first, List.pairwise_cons] at behind
        have later : .data m ∈ rest := by simpa [System.setChannel] using mem
        refine (behind.1 _ later f m rfl rfl ?_).elim
        rw [SeqMessage.ident, DataMessage.ident, same.1, same.2]
  · exact ⟨shrunk.behind, shrunk.awaited⟩

theorem InOrder.step (h : InOrder D s) (identified : Identified D s) (sound' : Sound D s')
    {e : Event Host} (ordered : s.Ordered e) (taken : s.step D e = some s') : InOrder D s' := by
  have sound := identified.toSound
  have unsettled : ∀ {t : System Host}, Progress D (s.incoming e) t s' → SameQueues s t →
      s.incoming e = none → ∀ b id, s'.Settled b id → s.Settled b id := by
    intro t progress same none b id settled
    rcases progress.settled_cases settled with old | ⟨f, eq, _⟩
    · exact same.settled.mp old
    · rw [none] at eq
      cases eq
  obtain ⟨t, _, same, _, progress⟩ := sound.progress taken
  cases e with
  | multicast p data =>
      have settled := unsettled progress same rfl
      obtain ⟨_, rfl⟩ := step_multicast taken
      exact ⟨h.behind, fun a b hb m mem done => h.awaited a b hb m mem (settled b _ done)⟩
  | sendData p i recipient =>
      have settled := unsettled progress same rfl
      obtain ⟨⟨hp, _⟩, holder, held, _, rfl⟩ := step_sendData taken
      refine h.append sound' (channel_post p _) (fun a b m mem f hf eq => ?_)
        fun a b hb m mem done => settled b _ done
      have own := sound.sender p hp
      have this : m = holder.orgMsg := by
        split at mem
        · simp only [List.mem_map, List.mem_filter, List.mem_singleton] at mem
          obtain ⟨_, ⟨rfl, _⟩, eq⟩ := mem
          cases eq
          rfl
        · cases mem
      subst this
      simp only [SeqMessage.ident, DataMessage.ident, MsgIdentifier.mk.injEq] at eq
      exact (identified.numbered p hp).released f hf
        (eq.2.trans (own.own _ (own.dataHeld holder held).1)) ⟨holder, held, eq.1.symm⟩
  | sendSeq p i recipient =>
      have settled := unsettled progress same rfl
      obtain ⟨_, holder, _, _, rfl⟩ := step_sendSeq taken
      refine h.append sound' (channel_post p _) (fun a b m mem => ?_)
        fun a b hb m mem done => settled b _ done
      split at mem
      · simp only [List.mem_map, List.mem_filter, List.mem_singleton] at mem
        obtain ⟨_, ⟨rfl, _⟩, eq⟩ := mem
        cases eq
      · cases mem
  | receive src dst i copy => exact h.receive sound sound' ordered taken
  | lose src dst i =>
      rw [step_lose taken]
      exact h.setChannel (List.eraseIdx_sublist _ _)

theorem inOrder_of_ordered (reach : Reach (step D) Ordered (initial Host) s)
    (few : s.FewMulticasts D) : InOrder D s := by
  induction reach with
  | start => exact inOrder_initial
  | next before ordered taken ih =>
      have fewer := few.of_step taken
      have identified := identified_of_reachable before.always fewer
      exact (ih fewer).step identified (identified.toSound.step taken) ordered taken

/-! ## No message is accepted twice -/

/-- What was accepted and is no longer pending is settled, so its `DataMessage` is not in
flight. -/
theorem InOrder.noLateData (h : InOrder D s) (sound : Sound D s) (e : Event Host) :
    s.NoLateData e := by
  unfold NoLateData
  cases into : s.incoming e with
  | none => trivial
  | some arrival =>
      obtain ⟨p, packet⟩ := arrival
      cases packet with
      | data m =>
          intro accepted
          by_contra gone
          cases e with
          | receive src dst i copy =>
              obtain ⟨packet, found, eq⟩ := Option.map_eq_some_iff.mp into
              cases eq
              have mem := List.mem_of_getElem? found
              obtain ⟨x, hx, same⟩ := List.mem_map.mp accepted
              obtain ⟨log, host⟩ := List.mem_filter.mp hx
              have hdst := (sound.packets src p _ mem).2.1
              have earlier : s.Accepted p m.ident x.proposedSeq := by
                rw [← same, ← of_decide_eq_true host]
                exact log
              exact h.awaited src p hdst m mem
                ((sound.receiver p hdst).settled_of_accepted earlier gone)
          | _ => cases into
      | _ => trivial

theorem noLateData_of_ordered (reach : Reach (step D) Ordered (initial Host) s)
    (few : s.FewMulticasts D) : Reach (step D) NoLateData (initial Host) s := by
  induction reach with
  | start => exact .start
  | next before ordered taken ih =>
      have fewer := few.of_step taken
      exact (ih fewer).next
        ((inOrder_of_ordered before fewer).noLateData (sound_of_reachable before.always) _) taken

/-- In an ordered network a host holds or has delivered every accepted message once. -/
theorem nodup_of_ordered (reach : Reach (step D) Ordered (initial Host) s)
    (few : s.FewMulticasts D) {p : Host} (hp : p ∈ D.hostnames) :
    ((s.delivered p).map (·.ident) ++
      (s.service p).holdBackQueue.deque.map (·.ident)).Nodup :=
  ((sound_of_reachable reach.always).receiver p hp).balance.nodup_iff.mpr
    (nodup_acceptedIdents (noLateData_of_ordered reach few) p)

/-! ## The cached answers -/

/-- The answers a host has cached are those to the messages it accepted and that are not
settled. -/
def CacheExact (D : Deployment Host) (s : System Host) : Prop :=
  ∀ p ∈ D.hostnames, ∀ id, (s.service p).ackMessageCache id ≠ none ↔
    (∃ a, s.Accepted p id a) ∧ ¬ s.Settled p id

omit [DecidableEq Host] in
theorem SameQueues.cacheExact (same : SameQueues s s') (h : CacheExact D s) :
    CacheExact D s' := by
  intro p hp id
  rw [same.cache, h p hp id, same.settled]
  simp only [Accepted, same.accepted]

theorem CacheExact.progress (h : CacheExact D s) (sound : Sound D s)
    {handled : Option (Host × Packet)} (progress : Progress D handled s s')
    (open' : ∀ p m, handled = some (p, .data m) → ¬ s.Settled p m.ident) :
    CacheExact D s' := by
  cases progress with
  | quiet same _ => exact same.cacheExact h
  | choose same _ => exact same.cacheExact h
  | @accept p src m eq hp new eq' =>
      subst eq eq'
      intro q hq id
      have settled : (s.commit p (s.acceptance D p src m)).Settled q id ↔ s.Settled q id := by
        refine ⟨settled_of_settled_acceptance, fun old => ?_⟩
        exact (grows_commit fun id => settled_acceptance).settled q id old
      rw [settled]
      simp only [accepted_acceptance]
      by_cases this : q = p ∧ id = m.ident
      · obtain ⟨rfl, rfl⟩ := this
        simp [acceptance, MulticastService.accept, open' q m rfl]
      · have cache : ((s.commit p (s.acceptance D p src m)).service q).ackMessageCache id =
            (s.service q).ackMessageCache id := by
          by_cases same : q = p
          · have other : id ≠ m.ident := fun eq => this ⟨same, eq⟩
            subst same
            simp [acceptance, MulticastService.accept, other]
          · rw [commit_service_of_ne same]
        rw [cache, h q hq id]
        refine and_congr_left fun _ => exists_congr fun a => ?_
        exact ⟨Or.inl, fun either => either.resolve_right fun new => this ⟨new.1, new.2.1⟩⟩
  | @finish p src m eq hp final eq' =>
      subst eq eq'
      intro q hq id
      have log : ∀ a, (s.commit p (s.finishing D p src m)).Accepted q id a ↔
          s.Accepted q id a := by
        simp [Accepted, finishing]
      simp only [log]
      by_cases this : q = p ∧ id = m.ident
      · obtain ⟨rfl, rfl⟩ := this
        obtain ⟨a, accepted, _⟩ := sound.accepted_of_final final hq
        have done := (sound.receiver q hq).settled_of_finishing src accepted
        simp [finishing, MulticastService.finish] at done ⊢
        exact fun _ _ => done
      · have cache : ((s.commit p (s.finishing D p src m)).service q).ackMessageCache id =
            (s.service q).ackMessageCache id := by
          by_cases same : q = p
          · have other : id ≠ m.ident := fun eq => this ⟨same, eq⟩
            subst same
            simp [finishing, MulticastService.finish, other]
          · rw [commit_service_of_ne same]
        have settled : (s.commit p (s.finishing D p src m)).Settled q id ↔ s.Settled q id := by
          refine ⟨fun new => ?_, (grows_commit fun id => settled_finishing).settled q id⟩
          rcases settled_of_settled_finishing new with old | ⟨same, eq, _⟩
          · exact old
          · exact (this ⟨same, eq⟩).elim
        rw [cache, h q hq id, settled]

/-- The message of a `DataMessage` that is handed to a host is not settled there. -/
theorem InOrder.unsettled_of_incoming (h : InOrder D s) (sound : Sound D s) {e : Event Host}
    {p : Host} {m : DataMessage} (into : s.incoming e = some (p, .data m)) :
    ¬ s.Settled p m.ident := by
  cases e with
  | receive src dst i copy =>
      obtain ⟨packet, found, eq⟩ := Option.map_eq_some_iff.mp into
      cases eq
      have mem := List.mem_of_getElem? found
      exact h.awaited src p (sound.packets src p _ mem).2.1 m mem
  | _ => cases into

theorem cacheExact_of_ordered (reach : Reach (step D) Ordered (initial Host) s)
    (few : s.FewMulticasts D) : CacheExact D s := by
  induction reach with
  | start =>
      intro p hp id
      simp [initial, Accepted]
  | next before _ taken ih =>
      have fewer := few.of_step taken
      have sound := sound_of_reachable before.always
      obtain ⟨t, soundT, same, _, progress⟩ := sound.progress taken
      refine (same.cacheExact (ih fewer)).progress soundT progress fun p m into settled => ?_
      exact (inOrder_of_ordered before fewer).unsettled_of_incoming sound into
        (same.settled.mp settled)

/-! ## No handler throws -/

theorem processPacket_ne_none (sound : Sound D s) (cache : CacheExact D s) {src dst : Host}
    (hsrc : src ∈ D.hostnames) (hdst : dst ∈ D.hostnames) {packet : Packet}
    (holds : s.PacketSound D src dst packet)
    (open' : ∀ m, packet = .data m → ¬ s.Settled dst m.ident) :
    (s.service dst).processPacket D dst packet ≠ none := by
  cases packet with
  | data m =>
      have sender := Hostfile.recipientIdMap_of_eq hsrc ((sound.sender src hsrc).own m holds)
      rw [MulticastService.processPacket]
      by_cases pending : m.ident ∈ (s.service dst).holdBackQueue.pendingMsgSet
      · rw [MulticastService.processDataMsg_of_pending sender pending]
        obtain ⟨a, accepted⟩ := (sound.receiver dst hdst).pending _ pending
        have cached := (cache dst hdst m.ident).mpr ⟨⟨a, accepted⟩, open' m rfl⟩
        simpa using cached
      · rw [MulticastService.processDataMsg_of_new sender pending]
        simp
  | ack m =>
      rw [MulticastService.processPacket]
      rcases (s.service dst).processAckMsg_cases (Hostfile.recipientIdMap_of_eq hsrc holds.1) with
        ⟨_, eq⟩ | ⟨_, ⟨_, eq⟩ | ⟨_, f, _, eq⟩⟩ <;>
      · rw [eq]
        simp
  | seq m =>
      rw [MulticastService.processPacket,
        MulticastService.processSeqMsg_eq (Hostfile.recipientIdMap_of_eq hsrc holds.2)]
      simp
  | seqAck m =>
      rw [MulticastService.processPacket,
        MulticastService.processSeqAckMsg_eq (Hostfile.recipientIdMap_of_eq hsrc holds.1)]
      simp

theorem running_of_ordered (reach : Reach (step D) Ordered (initial Host) s)
    (few : s.FewMulticasts D) (p : Host) : s.stopped p = false := by
  induction reach with
  | start => rfl
  | @next s s' e before ordered taken ih =>
      have fewer := few.of_step taken
      have sound := sound_of_reachable before.always
      cases e with
      | multicast q data =>
          obtain ⟨_, rfl⟩ := step_multicast taken
          exact ih fewer
      | sendData q i recipient =>
          obtain ⟨_, _, _, _, rfl⟩ := step_sendData taken
          exact ih fewer
      | sendSeq q i recipient =>
          obtain ⟨_, _, _, _, rfl⟩ := step_sendSeq taken
          exact ih fewer
      | receive src dst i copy =>
          obtain ⟨_, packet, found, ⟨o, _, rfl⟩ | ⟨thrown, _⟩⟩ := step_receive taken
          · exact ih fewer
          · have mem := List.mem_of_getElem? found
            obtain ⟨hsrc, hdst, holds⟩ := sound.packets src dst packet mem
            refine (processPacket_ne_none sound (cacheExact_of_ordered before fewer) hsrc hdst holds
              (fun m eq => ?_) thrown).elim
            exact (inOrder_of_ordered before fewer).awaited src dst hdst m (eq ▸ mem)
      | lose src dst i =>
          rw [step_lose taken]
          exact ih fewer

/-! ## Quiescence -/

/-- Nothing is in flight and nothing is left to send. -/
def Quiescent (D : Deployment Host) (s : System Host) : Prop :=
  (∀ a b, s.channel a b = []) ∧
    ∀ p ∈ D.hostnames, (s.service p).dataMsgSender.msgList = [] ∧
      (s.service p).seqMsgSender.msgList = []

/-- Once nothing is left to send, every multicast is settled everywhere. -/
theorem Identified.settled_of_nothing_to_send (h : Identified D s) {q : Host} (hq : q ∈ D.hostnames)
    (data : (s.service q).dataMsgSender.msgList = [])
    (seq : (s.service q).seqMsgSender.msgList = []) {m : DataMessage}
    (multicast : m ∈ s.multicasts q) {p : Host} (hp : p ∈ D.hostnames) :
    s.Settled p m.ident := by
  have own := h.numbered q hq
  obtain ⟨f, hf, same⟩ := own.completed m multicast (by simp [ContinuousMsgSender.Holds, data])
  have sender : f.sender = D.processIdentifier q := by
    simp only [SeqMessage.ident, DataMessage.ident, MsgIdentifier.mk.injEq] at same
    exact same.2.trans ((h.sender q hq).own m multicast)
  rcases own.finished f hf sender p hp with owed | settled
  · simp [ContinuousMsgSender.Owes, seq] at owed
  · exact same ▸ settled

/-- The front of a deque is not settled, as long as no message is accepted twice. -/
theorem ReceiverSound.unsettled_front {p : Host} (h : s.ReceiverSound D p)
    (once : ((s.delivered p).map (·.ident) ++
      (s.service p).holdBackQueue.deque.map (·.ident)).Nodup)
    {e : PendingMsg} {rest : List PendingMsg}
    (deque : (s.service p).holdBackQueue.deque = e :: rest) : ¬ s.Settled p e.ident := by
  rw [deque, List.map_cons, List.nodup_append, List.nodup_cons] at once
  rintro (⟨m, mem, same⟩ | ⟨e', mem, same, deliverable⟩)
  · exact once.2.2 _ (List.mem_map_of_mem mem) _ List.mem_cons_self same
  · rw [deque] at mem
    rcases List.mem_cons.mp mem with rfl | later
    · rw [h.front e' rest deque] at deliverable
      cases deliverable
    · exact once.2.1.1 (same ▸ List.mem_map_of_mem later)

/-- Every message has been delivered by every host, once, and no host has anything left to send
or to deliver. -/
structure Finished (D : Deployment Host) (s : System Host) : Prop where
  sent : ∀ p ∈ D.hostnames, (s.service p).dataMsgSender.msgList = [] ∧
    (s.service p).seqMsgSender.msgList = []
  delivered : ∀ p ∈ D.hostnames, ∀ q ∈ D.hostnames, ∀ m ∈ s.multicasts q,
    m ∈ s.delivered p ∧ ((s.delivered p).map (·.ident)).count m.ident = 1
  empty : ∀ p ∈ D.hostnames, (s.service p).holdBackQueue.deque = []

theorem finished_of_sent (reach : Reach (step D) Ordered (initial Host) s)
    (few : s.FewMulticasts D)
    (sent : ∀ p ∈ D.hostnames, (s.service p).dataMsgSender.msgList = [] ∧
      (s.service p).seqMsgSender.msgList = []) : s.Finished D := by
  have identified := identified_of_reachable reach.always few
  have settled : ∀ p ∈ D.hostnames, ∀ m, s.Genuine D m → s.Settled p m.ident := by
    rintro p hp m ⟨q, hq, _, multicast⟩
    exact identified.settled_of_nothing_to_send hq (sent q hq).1 (sent q hq).2 multicast hp
  have empty : ∀ p ∈ D.hostnames, (s.service p).holdBackQueue.deque = [] := by
    intro p hp
    have receiver := identified.receiver p hp
    cases deque : (s.service p).holdBackQueue.deque with
    | nil => rfl
    | cons e rest =>
        -- the front entry would be undeliverable and its message settled all the same
        have genuine := receiver.genuine e (by rw [deque]; exact List.mem_cons_self)
        exact (receiver.unsettled_front (nodup_of_ordered reach few hp) deque
          (settled p hp e.dataMsg genuine)).elim
  refine ⟨sent, fun p hp q hq m multicast => ?_, empty⟩
  have genuine := Genuine.of_mem identified.toSound hq multicast
  rcases settled p hp m genuine with ⟨d, mem, same⟩ | ⟨e, mem, _⟩
  · have this : d = m :=
      identified.multicast_unique ((identified.receiver p hp).delivered d mem).1 genuine same
    subst this
    have once := (List.nodup_append.mp (nodup_of_ordered reach few hp)).1
    exact ⟨mem, List.count_eq_one_of_mem once (List.mem_map_of_mem mem)⟩
  · rw [empty p hp] at mem
    cases mem

/-- **Exactly once.**  In an ordered network no handler throws, and in a quiescent state every
host has delivered every multicast exactly once and keeps nothing, as long as no host has called
`multicast` 2^32 times. -/
theorem exactly_once_at_quiescence (D : Deployment Host) {s : System Host}
    (reach : Reach (step D) Ordered (initial Host) s) (few : s.FewMulticasts D) :
    (∀ p, s.stopped p = false) ∧
      (s.Quiescent D → ∀ p ∈ D.hostnames,
        (∀ q ∈ D.hostnames, ∀ m ∈ s.multicasts q,
          m ∈ s.delivered p ∧ ((s.delivered p).map (·.ident)).count m.ident = 1) ∧
        (∀ m ∈ s.delivered p, ∃ q ∈ D.hostnames, m ∈ s.multicasts q) ∧
        (s.service p).holdBackQueue.deque = [] ∧
        ∀ id, (s.service p).ackMessageCache id = none) := by
  refine ⟨running_of_ordered reach few, fun quiescent p hp => ?_⟩
  have identified := identified_of_reachable reach.always few
  have receiver := identified.receiver p hp
  have finished := finished_of_sent reach few quiescent.2
  refine ⟨finished.delivered p hp, fun m hm => ?_, finished.empty p hp, fun id => ?_⟩
  · obtain ⟨q, hq, _, multicast⟩ := (receiver.delivered m hm).1
    exact ⟨q, hq, multicast⟩
  · by_contra cached
    obtain ⟨⟨a, accepted⟩, unsettled⟩ := (cacheExact_of_ordered reach few p hp id).mp cached
    obtain ⟨m, ⟨q, hq, _, multicast⟩, same⟩ := receiver.genuine_of_accepted accepted
    exact unsettled (same ▸ identified.settled_of_nothing_to_send hq (quiescent.2 q hq).1
      (quiescent.2 q hq).2 multicast hp)

end System

/-- Both hosts multicast, one copy of a `DataMessage` is lost and sent again, and everything is
answered. -/
def settlingRun : List (Event Bool) :=
  [.multicast false 10, .multicast true 20,
    .sendData false 0 false, .sendData false 0 true, .sendData true 0 true, .sendData true 0 false,
    .lose true false 0, .sendData true 0 false,
    .receive false false 0 false, .receive false true 0 false, .receive true false 0 false,
    .receive true true 0 false,
    .receive false false 0 false, .receive true false 0 false,
    .receive true true 0 false, .receive false true 0 false,
    .sendSeq false 0 false, .sendSeq false 0 true, .sendSeq true 0 true, .sendSeq true 0 false,
    .receive false false 0 false, .receive false true 0 false, .receive true false 0 false,
    .receive true true 0 false,
    .receive false false 0 false, .receive true false 0 false,
    .receive true true 0 false, .receive false true 0 false]

/-- The state in which `settlingRun` ends. -/
def settledState : System Bool :=
  (replay (System.step twoHosts) (System.initial Bool) settlingRun).get (by decide +kernel)

theorem exactly_once_settledState :
    settledState.Quiescent twoHosts ∧
      (∀ q ∈ twoHosts.hostnames, ∀ m ∈ settledState.multicasts q,
        m ∈ settledState.delivered true ∧
          ((settledState.delivered true).map (·.ident)).count m.ident = 1) := by
  have quiescent : settledState.Quiescent twoHosts :=
    ⟨by decide +kernel, by decide +kernel⟩
  have reach : Reach (System.step twoHosts) System.Ordered (System.initial Bool) settledState :=
    Reach.of_isSome (by decide +kernel) _
  exact ⟨quiescent,
    ((System.exactly_once_at_quiescence twoHosts reach (by decide +kernel)).2 quiescent true
      (by decide)).1⟩

/-- The second host has handled the final number of the first host's message and dropped its
answer; the message waits in its queue, behind one that nobody else has received. -/
def waitingRun : List (Event Bool) :=
  [.multicast true 20, .sendData true 0 true, .receive true true 0 false,
    .multicast false 10, .sendData false 0 false, .sendData false 0 true,
    .receive false false 0 false, .receive false true 0 false,
    .receive false false 0 false, .receive true false 0 false,
    .sendSeq false 0 true, .receive false true 0 false]

/-- A second message of the first host with the identifier of the first: it is pending at the
second host, which has no answer for it. -/
def unansweredRun : List (Event Bool) :=
  [.multicast false 11, .sendData false 0 true, .receive false true 0 false]

def waiting : System Bool :=
  (replay (System.step twoHosts) (System.initial Bool) waitingRun).get (by decide +kernel)

def unanswered : System Bool :=
  (replay (System.step twoHosts) (waiting.rewound false) unansweredRun).get (by decide +kernel)

/-- Without a bound on the calls of `multicast`, `ackMessageCache.at` can throw. -/
theorem handler_throws :
    ¬ ∀ s : System Bool, Reach (System.step twoHosts) System.Ordered (System.initial Bool) s →
      ∀ p, s.stopped p = false := by
  intro running
  have again : Reach (System.step twoHosts)
      (fun t e => t.Ordered e ∧ t.AnswersOnly false (waiting.service false).msgId e)
      (waiting.rewound false) unanswered := Reach.of_isSome (by decide +kernel) _
  obtain ⟨s, held, reach, padded⟩ := System.exists_reach_again (fun _ _ => trivial)
    (fun {_ _ _ e} _ ordered => by cases e <;> exact ordered)
    (Reach.of_isSome (by decide +kernel) _) (by decide +kernel) (by decide +kernel) again
  have stands := running s reach true
  rw [padded.stopped] at stands
  exact absurd stands (by decide +kernel)

end GroupComm.Lab1
