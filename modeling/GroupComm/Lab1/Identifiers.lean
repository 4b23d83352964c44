import GroupComm.Lab1.Progress

/-!
# The messages have different identifiers

`createDataMessage` numbers the messages of a host with `++msgId`, so an identifier comes back with
the 2^32-th call of `multicast`.  What follows while no host has called it that often
(`FewMulticasts`):

* `DataNumbered`: the numbers of a host's messages differ, and a host that owes an answer to a
  message has not been counted for it.
* `SenderNumbered`: a message is held until it has its final number, and that until it has arrived
  everywhere.
* `identified_of_reachable`: with `Sound`, all this holds in every state that is reached, and no
  message gets two final numbers.
-/

namespace GroupComm.Lab1

open Transition

namespace System

variable {Host : Type} [DecidableEq Host] (D : Deployment Host)

/-- No host has called `multicast` so often that a number has come back. -/
def FewMulticasts (s : System Host) : Prop :=
  ∀ p ∈ D.hostnames, (s.multicasts p).length < UInt32.size

instance (s : System Host) : Decidable (s.FewMulticasts D) :=
  inferInstanceAs (Decidable (∀ p ∈ D.hostnames, _))

structure DataNumbered (s : System Host) (p : Host) : Prop where
  below : ∀ m ∈ s.multicasts p, m.msgId.toNat ≤ (s.service p).msgId.toNat
  distinct : (s.multicasts p).Pairwise fun m m' => m.msgId ≠ m'.msgId
  dataWf : (s.service p).dataMsgSender.WellFormed
  notOwed : ∀ k ids, (s.service p).proposedSeqIdMap k = some ids → ∀ r ∈ D.hostnames,
    D.processIdentifier r ∈ ids → ¬ (s.service p).dataMsgSender.Owes k r
  answered : ∀ m ∈ s.multicasts p, ∀ r ∈ D.hostnames,
    (s.service p).dataMsgSender.Owes m.msgId r ∨
      ∃ ids, (s.service p).proposedSeqIdMap m.msgId = some ids ∧ D.processIdentifier r ∈ ids

structure SenderNumbered (s : System Host) (p : Host) : Prop extends DataNumbered D s p where
  completed : ∀ m ∈ s.multicasts p, ¬ (s.service p).dataMsgSender.Holds m.msgId →
    ∃ f ∈ s.finals, f.ident = m.ident
  released : ∀ f ∈ s.finals, f.sender = D.processIdentifier p →
    ¬ (s.service p).dataMsgSender.Holds f.msgId
  seqWf : (s.service p).seqMsgSender.WellFormed
  finished : ∀ f ∈ s.finals, f.sender = D.processIdentifier p → ∀ r ∈ D.hostnames,
    (s.service p).seqMsgSender.Owes f.msgId r ∨ s.Settled r f.ident

structure Identified (s : System Host) : Prop extends Sound D s where
  numbered : ∀ p ∈ D.hostnames, s.SenderNumbered D p
  finalIdents : (s.finals.map (·.ident)).Nodup

variable {D} {s s' : System Host}

/-! ## What the identifiers name -/

/-- An identifier names one message. -/
theorem Identified.multicast_unique (h : Identified D s) {m m' : DataMessage}
    (genuine : s.Genuine D m) (genuine' : s.Genuine D m') (same : m.ident = m'.ident) :
    m = m' := by
  obtain ⟨p, mem, id, multicast⟩ := genuine
  obtain ⟨p', mem', id', multicast'⟩ := genuine'
  simp only [DataMessage.ident, MsgIdentifier.mk.injEq] at same
  have hosts : p = p' :=
    Hostfile.processIdentifier_inj mem mem' (id.trans (same.2.trans id'.symm))
  subst hosts
  by_contra apart
  have symm : Std.Symm fun m m' : DataMessage => m.msgId ≠ m'.msgId := ⟨fun _ _ => Ne.symm⟩
  exact (h.numbered p mem).distinct.forall multicast multicast' apart same.1

/-- A message has one final number. -/
theorem Identified.finalUnique (h : Identified D s) {f g : SeqMessage} (hf : f ∈ s.finals)
    (hg : g ∈ s.finals) (same : f.ident = g.ident) : f = g :=
  List.inj_on_of_nodup_map h.finalIdents hf hg same

/-- The message of the last final number had none before. -/
theorem Identified.ne_of_last_final (h : Identified D s) {finals : List SeqMessage}
    {f : SeqMessage} (split : s.finals = finals ++ [f]) : ∀ g ∈ finals, g.ident ≠ f.ident := by
  have nodup := h.finalIdents
  rw [split, List.map_append, List.nodup_append] at nodup
  exact fun g hg => nodup.2.2 _ (List.mem_map_of_mem hg) _ (List.mem_singleton_self _)

/-- The next number of a host is above all the earlier ones. -/
theorem Identified.fresh (h : Identified D s) {p : Host} (hp : p ∈ D.hostnames)
    (few : (s.multicasts p).length + 1 < UInt32.size) :
    ((s.service p).msgId + 1).toNat = (s.service p).msgId.toNat + 1 ∧
      ∀ m ∈ s.multicasts p, m.msgId ≠ (s.service p).msgId + 1 := by
  have counted := (h.sender p hp).counted
  have next : ((s.service p).msgId + 1).toNat = (s.service p).msgId.toNat + 1 :=
    toNat_add_one (by omega)
  refine ⟨next, fun m mem eq => ?_⟩
  have below := (h.numbered p hp).below m mem
  rw [eq, next] at below
  omega

/-- Nobody has accepted a message with the next identifier of a host. -/
theorem Identified.not_accepted_next (h : Identified D s) {p : Host} (hp : p ∈ D.hostnames)
    (few : (s.multicasts p).length + 1 < UInt32.size) (data : UInt32) {r : Host}
    (hr : r ∈ D.hostnames) (a : UInt32) :
    ¬ s.Accepted r ((s.service p).createDataMessage D p data).ident a := by
  intro accepted
  obtain ⟨m, genuine, same⟩ := (h.receiver r hr).genuine_of_accepted accepted
  have sender : m.sender = D.processIdentifier p := congrArg MsgIdentifier.sender same
  have number : m.msgId = (s.service p).msgId + 1 := congrArg MsgIdentifier.msgId same
  exact (h.fresh hp few).2 m (genuine.multicast hp sender) number

/-- An awaited answer shows that its message has no final number yet. -/
theorem SenderNumbered.no_final {p r : Host} (own : s.SenderNumbered D p) {m : AckMessage}
    (sender : m.sender = D.processIdentifier p)
    (owed : (s.service p).dataMsgSender.Owes m.msgId r) : ∀ f ∈ s.finals, f.ident ≠ m.ident := by
  intro f hf eq
  simp only [SeqMessage.ident, AckMessage.ident, MsgIdentifier.mk.injEq] at eq
  exact own.released f hf (eq.2.trans sender) (eq.1 ▸ owed.holds)

/-- A message is held until every host has answered. -/
theorem DataNumbered.holds_iff {p : Host} (h : s.DataNumbered D p) (sound : s.SenderSound D p)
    {m : DataMessage} (multicast : m ∈ s.multicasts p) {ids : ProposedSeqIds}
    (found : (s.service p).proposedSeqIdMap m.msgId = some ids) :
    (s.service p).dataMsgSender.Holds m.msgId ↔ ids.entries.length ≠ D.hostnames.length := by
  have hosts : ∀ j ∈ ids, ∃ r ∈ D.hostnames, D.processIdentifier r = j := by
    intro j mem
    obtain ⟨a, entry⟩ := Option.isSome_iff_exists.mp (AList.lookup_isSome.mpr mem)
    obtain ⟨r, hr, id, _⟩ := sound.proposed _ ids j a found entry
    exact ⟨r, hr, id⟩
  rw [ne_eq, ProposedSeqIds.complete_iff hosts]
  constructor
  · intro held all
    obtain ⟨r, owed⟩ := h.dataWf.exists_owes held
    obtain ⟨holder, mem, _, recipient⟩ := id owed
    have hr := (sound.dataHeld holder mem).2 r recipient
    exact h.notOwed _ ids found r hr (all r hr) owed
  · intro incomplete
    by_contra gone
    refine incomplete fun r hr => ?_
    rcases h.answered m multicast r hr with owed | ⟨ids', found', mem⟩
    · exact (gone owed.holds).elim
    · rw [found, Option.some.injEq] at found'
      exact found' ▸ mem

/-! ## Steps that leave a sender alone -/

theorem SenderNumbered.frame {p : Host} (h : s.SenderNumbered D p)
    (msgId : (s'.service p).msgId = (s.service p).msgId)
    (data : (s'.service p).dataMsgSender = (s.service p).dataMsgSender)
    (proposals : (s'.service p).proposedSeqIdMap = (s.service p).proposedSeqIdMap)
    (seq : (s'.service p).seqMsgSender = (s.service p).seqMsgSender)
    (multicasts : s'.multicasts p = s.multicasts p) (grows : Grows s s')
    (finals : ∀ f ∈ s'.finals, f.sender = D.processIdentifier p → f ∈ s.finals) :
    s'.SenderNumbered D p where
  below := by
    rw [multicasts, msgId]
    exact h.below
  distinct := by
    rw [multicasts]
    exact h.distinct
  dataWf := by
    rw [data]
    exact h.dataWf
  notOwed := by
    rw [proposals, data]
    exact h.notOwed
  answered := by
    rw [multicasts, data, proposals]
    exact h.answered
  completed := by
    rw [multicasts, data]
    intro m hm gone
    obtain ⟨f, hf, same⟩ := h.completed m hm gone
    exact ⟨f, grows.finals f hf, same⟩
  released := by
    rw [data]
    exact fun f hf id => h.released f (finals f hf id) id
  seqWf := by
    rw [seq]
    exact h.seqWf
  finished := by
    rw [seq]
    exact fun f hf id r hr => (h.finished f (finals f hf id) id r hr).imp_right
      (grows.settled _ _)

theorem Identified.quiet (h : Identified D s) (sound : Sound D s') (only : ChannelsOnly s s') :
    Identified D s' := by
  have grows := only.grows
  obtain ⟨service, _, multicasts, _, finals⟩ := only
  refine ⟨sound, fun p hp => ?_, ?_⟩
  · refine (h.numbered p hp).frame (by rw [service]) (by rw [service]) (by rw [service])
      (by rw [service]) (by rw [multicasts]) grows ?_
    rw [finals]
    exact fun _ hf _ => hf
  · rw [finals]
    exact h.finalIdents

theorem Identified.setChannel (h : Identified D s) {src dst : Host} {l : List Packet}
    (sub : l ⊆ s.channel src dst) : Identified D (s.setChannel src dst l) :=
  h.quiet (h.toSound.setChannel sub) ⟨rfl, rfl, rfl, rfl, rfl⟩

/-! ## Multicasting -/

theorem Identified.multicasting (h : Identified D s) {p : Host} (mem : p ∈ D.hostnames)
    {data : UInt32} (few : (s.multicasts p).length + 1 < UInt32.size) :
    Identified D (s.multicasting D p data) := by
  have grows : Grows s (s.multicasting D p data) := grows_multicasting
  have own := h.numbered p mem
  obtain ⟨next, new⟩ := h.fresh mem few
  have notHeld : ¬ (s.service p).dataMsgSender.Holds ((s.service p).msgId + 1) := by
    rintro ⟨holder, held, eq⟩
    exact new _ ((h.sender p mem).dataHeld holder held).1 eq
  refine ⟨h.toSound.multicasting mem data, fun q hq => ?_, h.finalIdents⟩
  by_cases same : q = p
  swap
  · have service : (s.multicasting D p data).service q = s.service q :=
        multicasting_service_of_ne same
    exact (h.numbered q hq).frame (by rw [service]) (by rw [service]) (by rw [service])
      (by rw [service]) (multicasting_multicasts_of_ne same) grows fun _ hf _ => hf
  subst same
  refine ⟨⟨?_, ?_, ?_, ?_, ?_⟩, ?_, ?_, ?_, ?_⟩
  · rw [multicasting_service_self, multicasting_multicasts_self]
    intro m hm
    rcases List.mem_append.mp hm with old | fresh
    · exact (own.below m old).trans ((Nat.le_succ _).trans_eq next.symm)
    · rw [List.mem_singleton] at fresh
      subst fresh
      exact Nat.le_refl _
  · rw [multicasting_multicasts_self, List.pairwise_append]
    refine ⟨own.distinct, List.pairwise_singleton _ _, fun m hm m' hm' => ?_⟩
    rw [List.mem_singleton] at hm'
    subst hm'
    exact new m hm
  · rw [multicasting_service_self]
    exact own.dataWf.queueMsg (List.ne_nil_of_mem mem) notHeld
  · rw [multicasting_service_self]
    intro k ids found r hr counted owed
    rcases (ContinuousMsgSender.owes_queueMsg _ _ _ _ _).mp owed with old | ⟨eq, _⟩
    · exact own.notOwed k ids found r hr counted old
    · -- a message with this number would have been accepted before it was multicast
      obtain ⟨a, entry⟩ := Option.isSome_iff_exists.mp (AList.lookup_isSome.mpr counted)
      obtain ⟨r', hr', _, accepted⟩ := (h.sender q mem).proposed k ids _ a found entry
      subst eq
      exact h.not_accepted_next mem few data hr' a accepted
  · rw [multicasting_service_self, multicasting_multicasts_self]
    intro m hm r hr
    rcases List.mem_append.mp hm with old | fresh
    · exact (own.answered m old r hr).imp_left fun owed =>
        (ContinuousMsgSender.owes_queueMsg _ _ _ _ _).mpr (Or.inl owed)
    · rw [List.mem_singleton] at fresh
      subst fresh
      exact Or.inl ((ContinuousMsgSender.owes_queueMsg _ _ _ _ _).mpr (Or.inr ⟨rfl, hr⟩))
  · rw [multicasting_service_self, multicasting_multicasts_self]
    intro m hm gone
    rcases List.mem_append.mp hm with old | fresh
    · exact own.completed m old fun held =>
        gone ((ContinuousMsgSender.holds_queueMsg _ _ _ _).mpr (Or.inl held))
    · rw [List.mem_singleton] at fresh
      subst fresh
      exact (gone ((ContinuousMsgSender.holds_queueMsg _ _ _ _).mpr (Or.inr rfl))).elim
  · rw [multicasting_service_self]
    intro f hf sender held
    rcases (ContinuousMsgSender.holds_queueMsg _ _ _ _).mp held with old | eq
    · exact own.released f hf sender old
    · obtain ⟨q', hq', id, m, hm, same⟩ := (h.finalSound f hf).multicast
      have hosts : q' = q := Hostfile.processIdentifier_inj hq' mem (id.symm.trans sender)
      subst hosts
      simp only [DataMessage.ident, SeqMessage.ident, MsgIdentifier.mk.injEq] at same
      exact new m hm (same.1.trans eq.symm)
  · rw [multicasting_service_self]
    exact own.seqWf
  · rw [multicasting_service_self]
    exact fun f hf sender r hr => (own.finished f hf sender r hr).imp_right (grows.settled _ _)

/-! ## The end of a handler -/

/-- A handler of `p` keeps the identifiers apart when it does so for what `p` itself sends. -/
theorem Identified.commit (h : Identified D s) {p : Host} (hp : p ∈ D.hostnames)
    {o : Outcome Host} (sound : Sound D (s.commit p o))
    (settled : ∀ id, s.Settled p id → (s.commit p o).Settled p id)
    (own : (s.commit p o).SenderNumbered D p)
    (queued : ∀ f ∈ o.queued, f.sender = D.processIdentifier p)
    (idents : ((s.finals ++ o.queued).map (·.ident)).Nodup) : Identified D (s.commit p o) := by
  refine ⟨sound, fun q hq => ?_, idents⟩
  by_cases same : q = p
  · exact same ▸ own
  · have service := commit_service_of_ne (s := s) (o := o) same
    refine (h.numbered q hq).frame (by rw [service]) (by rw [service]) (by rw [service])
      (by rw [service]) rfl (grows_commit settled) fun f hf id => ?_
    rcases List.mem_append.mp hf with old | new
    · exact old
    · exact (same (Hostfile.processIdentifier_inj hq hp (id.symm.trans (queued f new)))).elim

/-- A handler that queues no final number and leaves the sender alone. -/
theorem Identified.receiving (h : Identified D s) {p : Host} (hp : p ∈ D.hostnames)
    {o : Outcome Host} (sound : Sound D (s.commit p o))
    (settled : ∀ id, s.Settled p id → (s.commit p o).Settled p id)
    (msgId : o.service.msgId = (s.service p).msgId)
    (data : o.service.dataMsgSender = (s.service p).dataMsgSender)
    (proposals : o.service.proposedSeqIdMap = (s.service p).proposedSeqIdMap)
    (seq : o.service.seqMsgSender = (s.service p).seqMsgSender) (queued : o.queued = []) :
    Identified D (s.commit p o) := by
  have service : (s.commit p o).service p = o.service := commit_service_self
  refine h.commit hp sound settled ?_ (by simp [queued]) (by simpa [queued] using h.finalIdents)
  refine (h.numbered p hp).frame (by rw [service, msgId]) (by rw [service, data])
    (by rw [service, proposals]) (by rw [service, seq]) rfl (grows_commit settled) fun f hf _ => ?_
  simpa [queued] using hf

theorem Identified.processDataMsg (h : Identified D s) {src dst : Host} (hsrc : src ∈ D.hostnames)
    (hdst : dst ∈ D.hostnames) {m : DataMessage} (packet : s.PacketSound D src dst (.data m))
    {o : Outcome Host} (handled : (s.service dst).processDataMsg D dst m = some o) :
    Identified D (s.commit dst o) := by
  have sound := h.toSound.processDataMsg hsrc hdst packet handled
  have known := Hostfile.recipientIdMap_of_eq hsrc ((h.sender src hsrc).own m packet)
  by_cases pending : m.ident ∈ (s.service dst).holdBackQueue.pendingMsgSet
  · rw [MulticastService.processDataMsg_of_pending known pending, Option.map_eq_some_iff] at handled
    obtain ⟨ack, _, rfl⟩ := handled
    exact h.receiving hdst sound (settled_of_queue rfl rfl) rfl rfl rfl rfl rfl
  · rw [MulticastService.processDataMsg_of_new known pending, Option.some.injEq] at handled
    subst handled
    exact h.receiving hdst (o := s.acceptance D dst src m) sound (fun _ => settled_acceptance)
      rfl rfl rfl rfl rfl

theorem Identified.processSeqMsg (h : Identified D s) {src dst : Host} (hsrc : src ∈ D.hostnames)
    (hdst : dst ∈ D.hostnames) {m : SeqMessage} (packet : s.PacketSound D src dst (.seq m))
    {o : Outcome Host} (handled : (s.service dst).processSeqMsg D dst m = some o) :
    Identified D (s.commit dst o) := by
  have sound := h.toSound.processSeqMsg hsrc hdst packet handled
  have known := Hostfile.recipientIdMap_of_eq hsrc packet.2
  rw [MulticastService.processSeqMsg_eq known, Option.some.injEq] at handled
  subst handled
  exact h.receiving hdst (o := s.finishing D dst src m) sound (fun _ => settled_finishing)
    rfl rfl rfl rfl rfl

/-! ### `processAckMsg` -/

/-- The first part of a sender once an awaited answer has been counted. -/
theorem DataNumbered.count {p src : Host} (h : s.DataNumbered D p) (hsrc : src ∈ D.hostnames)
    {m : AckMessage} (proposer : m.proposer = D.processIdentifier src)
    (multicasts : s'.multicasts p = s.multicasts p)
    (msgId : (s'.service p).msgId = (s.service p).msgId)
    (data : (s'.service p).dataMsgSender =
      ((s.service p).dataMsgSender.removeRecipient m.msgId src).2)
    (proposals : (s'.service p).proposedSeqIdMap = Function.update (s.service p).proposedSeqIdMap
      m.msgId (some ((s.service p).proposalsWith m))) : s'.DataNumbered D p := by
  have owes := h.dataWf.owes_removeRecipient m.msgId src
  refine ⟨?_, ?_, ?_, ?_, ?_⟩
  · rw [multicasts, msgId]
    exact h.below
  · rw [multicasts]
    exact h.distinct
  · rw [data]
    exact h.dataWf.removeRecipient _ _
  · rw [proposals, data]
    intro k ids found r hr counted owed
    obtain ⟨before, apart⟩ := (owes k r).mp owed
    by_cases same : k = m.msgId
    · subst same
      rw [Function.update_self, Option.some.injEq] at found
      subst found
      rw [MulticastService.proposalsWith, AList.mem_insert] at counted
      rcases counted with new | old
      · exact apart ⟨rfl, Hostfile.processIdentifier_inj hr hsrc (new.trans proposer)⟩
      · cases known : (s.service p).proposedSeqIdMap m.msgId with
        | none =>
            rw [known] at old
            cases old
        | some ids =>
            rw [known] at old
            exact h.notOwed _ ids known r hr old before
    · rw [Function.update_of_ne same] at found
      exact h.notOwed k ids found r hr counted before
  · rw [multicasts, data, proposals]
    intro d multicast r hr
    by_cases answer : d.msgId = m.msgId ∧ r = src
    · refine Or.inr ⟨_, by rw [answer.1, Function.update_self], ?_⟩
      rw [MulticastService.proposalsWith, AList.mem_insert, answer.2]
      exact Or.inl proposer.symm
    · rcases h.answered d multicast r hr with owed | ⟨ids, found, mem⟩
      · exact Or.inl ((owes _ _).mpr ⟨owed, answer⟩)
      · by_cases same : d.msgId = m.msgId
        · refine Or.inr ⟨_, by rw [same, Function.update_self], ?_⟩
          rw [same] at found
          rw [MulticastService.proposalsWith, AList.mem_insert, found]
          exact Or.inr mem
        · exact Or.inr ⟨ids, by rw [Function.update_of_ne same, found], mem⟩

/-- An answer that is not the last one is counted. -/
theorem Identified.countIncomplete (h : Identified D s) {src dst : Host} (hsrc : src ∈ D.hostnames)
    (hdst : dst ∈ D.hostnames) {m : AckMessage} (packet : s.PacketSound D src dst (.ack m))
    (incomplete : ((s.service dst).proposalsWith m).entries.length ≠ D.hostnames.length) :
    Identified D (s.commit dst { service := (s.service dst).count m src }) := by
  have own := h.numbered dst hdst
  have sound := h.toSound.countIncomplete hsrc hdst packet
  set t := s.commit dst ⟨(s.service dst).count m src, [], [], [], []⟩ with ht
  have atSelf : t.service dst = (s.service dst).count m src := commit_service_self
  have settled : ∀ id, s.Settled dst id → t.Settled dst id := settled_of_queue rfl rfl
  have grows : Grows s t := grows_commit settled
  have finals : t.finals = s.finals := by simp [ht]
  have data : t.DataNumbered D dst := own.toDataNumbered.count hsrc packet.1 rfl
    (by rw [atSelf]; rfl) (by rw [atSelf]; rfl) (by rw [atSelf]; rfl)
  have found : (t.service dst).proposedSeqIdMap m.msgId =
      some ((s.service dst).proposalsWith m) := by
    rw [atSelf]
    exact Function.update_self _ _ _
  refine h.commit hdst sound settled ⟨data, ?_, ?_, ?_, ?_⟩ (by simp) (by simpa using h.finalIdents)
  · rw [finals]
    intro d hd free
    have other : d.msgId ≠ m.msgId := fun eq =>
      free ((data.holds_iff (sound.sender dst hdst) hd (eq ▸ found)).mpr incomplete)
    refine own.completed d hd fun held => free ?_
    rw [atSelf]
    exact own.dataWf.holds_removeRecipient_of_ne held other
  · rw [finals, atSelf]
    exact fun g hg id held =>
      own.released g hg id (ContinuousMsgSender.holds_of_removeRecipient held)
  · rw [atSelf]
    exact own.seqWf
  · rw [atSelf, finals]
    exact fun g hg id r hr => (own.finished g hg id r hr).imp_right (grows.settled _ _)

/-- The last answer queues the only final number of its message. -/
theorem Identified.countComplete (h : Identified D s) {src dst : Host} (hsrc : src ∈ D.hostnames)
    (hdst : dst ∈ D.hostnames) {m : AckMessage} (packet : s.PacketSound D src dst (.ack m))
    (owed : (s.service dst).dataMsgSender.Owes m.msgId src)
    (complete : ((s.service dst).proposalsWith m).entries.length = D.hostnames.length)
    {f : SeqMessage}
    (created : MulticastService.createSeqMessage m ((s.service dst).proposalsWith m) = some f) :
    Identified D (s.commit dst
      { service :=
          { (s.service dst).count m src with
            seqMsgSender := (s.service dst).seqMsgSender.queueMsg D.hostnames f }
        queued := [f] }) := by
  have own := h.numbered dst hdst
  have sound := h.toSound.countComplete hsrc hdst packet owed complete created
  have noFinal := own.no_final packet.2.1 owed
  obtain ⟨ident, sender, _⟩ :=
    (h.sender dst hdst).finalSound hdst hsrc packet owed complete created
  have fmsgId : f.msgId = m.msgId := congrArg MsgIdentifier.msgId ident
  obtain ⟨holder, held, same, _⟩ := owed
  have multicast := ((h.sender dst hdst).dataHeld holder held).1
  set service : MulticastService Host := { (s.service dst).count m src with
    seqMsgSender := (s.service dst).seqMsgSender.queueMsg D.hostnames f } with hservice
  set t := s.commit dst ⟨service, [], [], [], [f]⟩ with ht
  have atSelf : t.service dst = service := commit_service_self
  have settled : ∀ id, s.Settled dst id → t.Settled dst id := settled_of_queue rfl rfl
  have grows : Grows s t := grows_commit settled
  have finals : t.finals = s.finals ++ [f] := rfl
  have data : t.DataNumbered D dst := own.toDataNumbered.count hsrc packet.1 rfl
    (by rw [atSelf]; rfl) (by rw [atSelf]; rfl) (by rw [atSelf]; rfl)
  have found : (t.service dst).proposedSeqIdMap m.msgId =
      some ((s.service dst).proposalsWith m) := by
    rw [atSelf, hservice]
    exact Function.update_self _ _ _
  have gone : ¬ (t.service dst).dataMsgSender.Holds m.msgId := by
    rw [← same, DataMessage.hasMsgId,
      data.holds_iff (sound.sender dst hdst) multicast (by rwa [← same] at found)]
    exact not_not.mpr complete
  have older : ∀ id, (t.service dst).dataMsgSender.Holds id →
      (s.service dst).dataMsgSender.Holds id := by
    rw [atSelf]
    exact fun id => ContinuousMsgSender.holds_of_removeRecipient
  have notQueued : ¬ (s.service dst).seqMsgSender.Holds f.msgId := by
    rintro ⟨g, mem, eq⟩
    obtain ⟨⟨hg, id⟩, _⟩ := (h.sender dst hdst).seqHeld g mem
    refine noFinal _ hg ?_
    rw [← ident, SeqMessage.ident, SeqMessage.ident, id, sender, ← eq, SeqMessage.hasMsgId]
  refine h.commit hdst sound settled ⟨data, ?_, ?_, ?_, ?_⟩ ?_ ?_
  · rw [finals]
    intro d hd free
    by_cases this : d.msgId = m.msgId
    · refine ⟨f, List.mem_append_right _ (List.mem_singleton.mpr rfl), ?_⟩
      rw [SeqMessage.ident, DataMessage.ident, fmsgId, this, sender, (h.sender dst hdst).own d hd]
    · have free' : ¬ (s.service dst).dataMsgSender.Holds d.msgId := fun held => free (by
        rw [atSelf]
        exact own.dataWf.holds_removeRecipient_of_ne held this)
      obtain ⟨g, hg, eq⟩ := own.completed d hd free'
      exact ⟨g, List.mem_append_left _ hg, eq⟩
  · rw [finals]
    intro g hg id held
    rcases List.mem_append.mp hg with old | new
    · exact own.released g old id (older _ held)
    · rw [List.mem_singleton] at new
      subst new
      exact gone (fmsgId ▸ held)
  · rw [atSelf]
    exact own.seqWf.queueMsg (List.ne_nil_of_mem hdst) notQueued
  · rw [atSelf, finals]
    intro g hg id r hr
    rcases List.mem_append.mp hg with old | new
    · rcases own.finished g old id r hr with awaited | done
      · exact Or.inl ((ContinuousMsgSender.owes_queueMsg _ _ _ _ _).mpr (Or.inl awaited))
      · exact Or.inr (grows.settled _ _ done)
    · rw [List.mem_singleton] at new
      subst new
      exact Or.inl ((ContinuousMsgSender.owes_queueMsg _ _ _ _ _).mpr (Or.inr ⟨rfl, hr⟩))
  · intro g hg
    rw [List.mem_singleton] at hg
    exact hg ▸ sender
  · rw [List.map_append, List.nodup_append]
    refine ⟨h.finalIdents, List.nodup_singleton _, ?_⟩
    intro i hi j hj eq
    obtain ⟨g, hg, rfl⟩ := List.mem_map.mp hi
    rw [List.map_singleton, List.mem_singleton] at hj
    exact noFinal g hg (eq.trans (hj.trans ident))

theorem Identified.processAckMsg (h : Identified D s) {src dst : Host} (hsrc : src ∈ D.hostnames)
    (hdst : dst ∈ D.hostnames) {m : AckMessage} (packet : s.PacketSound D src dst (.ack m))
    {o : Outcome Host} (handled : (s.service dst).processAckMsg D m = some o) :
    Identified D (s.commit dst o) := by
  have sound := h.toSound.processAckMsg hsrc hdst packet handled
  have known := Hostfile.recipientIdMap_of_eq hsrc packet.1
  have own := h.numbered dst hdst
  by_cases owed : (s.service dst).dataMsgSender.Owes m.msgId src
  · by_cases complete : ((s.service dst).proposalsWith m).entries.length = D.hostnames.length
    · obtain ⟨f, created, eq⟩ :=
        MulticastService.processAckMsg_of_complete known own.dataWf owed complete
      rw [eq, Option.some.injEq] at handled
      subst handled
      exact h.countComplete hsrc hdst packet owed complete created
    · rw [MulticastService.processAckMsg_of_incomplete known own.dataWf owed complete,
        Option.some.injEq] at handled
      subst handled
      exact h.countIncomplete hsrc hdst packet complete
  · rw [MulticastService.processAckMsg_of_not_owes known own.dataWf owed,
      Option.some.injEq] at handled
    subst handled
    exact h.receiving hdst sound (settled_of_queue rfl rfl) rfl rfl rfl rfl rfl

/-! ### `processSeqAckMsg` -/

theorem Identified.processSeqAckMsg (h : Identified D s) {src dst : Host}
    (hsrc : src ∈ D.hostnames) (hdst : dst ∈ D.hostnames) {m : SeqAckMessage}
    (packet : s.PacketSound D src dst (.seqAck m)) {o : Outcome Host}
    (handled : (s.service dst).processSeqAckMsg D m = some o) : Identified D (s.commit dst o) := by
  have sound := h.toSound.processSeqAckMsg hsrc hdst packet handled
  obtain ⟨ackSender, sender, done⟩ := packet
  rw [MulticastService.processSeqAckMsg_eq (Hostfile.recipientIdMap_of_eq hsrc ackSender),
    Option.some.injEq] at handled
  subst handled
  have own := h.numbered dst hdst
  set service : MulticastService Host := { s.service dst with
    seqMsgSender := ((s.service dst).seqMsgSender.removeRecipient m.msgId src).2 } with hservice
  set t := s.commit dst ⟨service, [], [], [], []⟩ with ht
  have atSelf : t.service dst = service := commit_service_self
  have finals : t.finals = s.finals := by simp [ht]
  have settled : ∀ id, s.Settled dst id → t.Settled dst id := settled_of_queue rfl rfl
  have grows : Grows s t := grows_commit settled
  refine h.commit hdst sound settled ⟨⟨?_, own.distinct, ?_, ?_, ?_⟩, ?_, ?_, ?_, ?_⟩ (by simp)
    (by simpa using h.finalIdents)
  · rw [atSelf]
    exact own.below
  · rw [atSelf]
    exact own.dataWf
  · rw [atSelf]
    exact own.notOwed
  · rw [atSelf]
    exact own.answered
  · rw [atSelf, finals]
    exact own.completed
  · rw [atSelf, finals]
    exact own.released
  · rw [atSelf]
    exact own.seqWf.removeRecipient _ _
  · rw [atSelf, finals]
    intro f hf id r hr
    rcases own.finished f hf id r hr with awaited | arrived
    · by_cases answer : f.msgId = m.msgId ∧ r = src
      · have same : f.ident = m.ident := by
          rw [SeqMessage.ident, SeqAckMessage.ident, answer.1, id, sender]
        rw [same, answer.2]
        exact Or.inr (grows.settled _ _ done)
      · exact Or.inl ((own.seqWf.owes_removeRecipient _ _ _ _).mpr ⟨awaited, answer⟩)
    · exact Or.inr (grows.settled _ _ arrived)

/-! ## Every step -/

theorem identified_initial : Identified D (initial Host) := by
  refine ⟨sound_initial, fun p _ => ?_, .nil⟩
  refine ⟨⟨?_, .nil, ContinuousMsgSender.wellFormed_empty, ?_, ?_⟩, ?_, ?_,
    ContinuousMsgSender.wellFormed_empty, ?_⟩ <;> simp [initial]

theorem multicasts_grow {e : Event Host} (taken : s.step D e = some s') (p : Host) :
    s.multicasts p <+: s'.multicasts p := by
  cases e with
  | multicast q data =>
      obtain ⟨_, rfl⟩ := step_multicast taken
      by_cases same : p = q
      · subst same
        simp
      · simp [same]
  | sendData q i recipient =>
      obtain ⟨_, _, _, _, rfl⟩ := step_sendData taken
      exact List.prefix_refl _
  | sendSeq q i recipient =>
      obtain ⟨_, _, _, _, rfl⟩ := step_sendSeq taken
      exact List.prefix_refl _
  | receive src dst i copy =>
      obtain ⟨_, _, _, ⟨_, _, rfl⟩ | ⟨_, rfl⟩⟩ := step_receive taken
      · exact List.prefix_refl _
      · exact List.prefix_refl _
  | lose src dst i =>
      rw [step_lose taken]
      exact List.prefix_refl _

theorem FewMulticasts.of_step {e : Event Host} (taken : s.step D e = some s')
    (few : s'.FewMulticasts D) : s.FewMulticasts D :=
  fun p hp => (multicasts_grow taken p).length_le.trans_lt (few p hp)

theorem FewMulticasts.of_reach (run : Reach (step D) Always s s') (few : s'.FewMulticasts D) :
    s.FewMulticasts D := by
  induction run with
  | start => exact few
  | next _ _ taken ih => exact ih (few.of_step taken)

theorem Identified.receive (h : Identified D s) {src dst : Host} {i : Nat} {copy : Bool}
    (taken : s.step D (.receive src dst i copy) = some s') : Identified D s' := by
  have sound := h.toSound.step taken
  obtain ⟨_, packet, found, ⟨o, handled, rfl⟩ | ⟨_, rfl⟩⟩ := step_receive taken
  · obtain ⟨hsrc, hdst, holds⟩ := h.packets src dst packet (List.mem_of_getElem? found)
    have shrunk := h.setChannel (leftover_subset (s.channel src dst) i copy)
    cases packet with
    | data m => exact shrunk.processDataMsg hsrc hdst holds handled
    | ack m => exact shrunk.processAckMsg hsrc hdst holds handled
    | seq m => exact shrunk.processSeqMsg hsrc hdst holds handled
    | seqAck m => exact shrunk.processSeqAckMsg hsrc hdst holds handled
  · exact h.quiet sound ⟨rfl, rfl, rfl, rfl, rfl⟩

theorem Identified.step (h : Identified D s) {e : Event Host} (taken : s.step D e = some s')
    (few : s'.FewMulticasts D) : Identified D s' := by
  have sound := h.toSound.step taken
  cases e with
  | multicast p data =>
      obtain ⟨⟨mem, _⟩, rfl⟩ := step_multicast taken
      exact h.multicasting mem (by simpa using few p mem)
  | sendData p i recipient =>
      obtain ⟨_, _, _, _, rfl⟩ := step_sendData taken
      exact h.quiet sound ⟨rfl, rfl, rfl, rfl, rfl⟩
  | sendSeq p i recipient =>
      obtain ⟨_, _, _, _, rfl⟩ := step_sendSeq taken
      exact h.quiet sound ⟨rfl, rfl, rfl, rfl, rfl⟩
  | receive src dst i copy => exact h.receive taken
  | lose src dst i =>
      rw [step_lose taken] at sound ⊢
      exact h.quiet sound ⟨rfl, rfl, rfl, rfl, rfl⟩

/-- **Identifiers.**  Under every schedule and every network, as long as no host has called
`multicast` 2^32 times. -/
theorem identified_of_reachable (reachable : s.Reachable D) (few : s.FewMulticasts D) :
    Identified D s :=
  reachable.invariant_below (Q := fun _ => True) (fun _ _ => trivial)
    (fun _ _ _ taken few => few.of_step taken) identified_initial
    (fun _ _ _ _ h few _ taken => h.step taken few) few

/-! ## Progress -/

theorem Identified.progress (h : Identified D s) {e : Event Host} (taken : s.step D e = some s') :
    ∃ t, Identified D t ∧ SameQueues s t ∧ t.finals = s.finals ∧
      Progress D (s.incoming e) t s' := by
  obtain ⟨t, only, sound, progress⟩ := h.toSound.progress_of_step taken
  exact ⟨t, h.quiet sound only, only.sameQueues, only.finals, progress⟩

end System

end GroupComm.Lab1
