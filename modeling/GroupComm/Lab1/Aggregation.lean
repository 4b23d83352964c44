import GroupComm.Lab1.Network

/-!
# The aggregation of the Acks

A history lists the calls of `multicast` and `processAckMsg` at a sender, the latest first.
The final number of a message depends on nothing but the first Acks for it (`aggregated`).

* `firstProposal` reads the first Acks off the history.  An Ack counts from the moment its
  message has been multicast, and a second one from the same proposer does not count.
* The code keeps them in two places: the recipients of `dataMsgSender` are those without a
  first Ack, and `proposedSeqIdMap` has the others (`Counts`).
* The map of a message is never erased.  Once `msgId` has wrapped, a message finds there the
  proposals for an earlier one (`not_aggregated_overrun`).
-/

namespace GroupComm.Lab1

open StdAlgorithm

namespace MulticastService

inductive SenderCall where
  | multicast (data : UInt32)
  | ack (ackMsg : AckMessage)
  deriving DecidableEq

variable {Host : Type} [DecidableEq Host] (D : Deployment Host) (self : Host)

def call (s : MulticastService Host) : SenderCall → Option (Outcome Host)
  | .multicast data => some { service := s.multicast D self data }
  | .ack ackMsg => s.processAckMsg D ackMsg

/-- The service after a history of calls, with the `SeqMessage`s it has queued; `none` where
the code throws. -/
def aggregate : List SenderCall → Option (MulticastService Host × List SeqMessage)
  | [] => some ({}, [])
  | c :: history => do
      let (s, queued) ← aggregate history
      let outcome ← s.call D self c
      some (outcome.service, outcome.queued ++ queued)

/-! ## What the history says -/

def multicasts : List SenderCall → ℕ
  | [] => 0
  | .multicast _ :: history => multicasts history + 1
  | .ack _ :: history => multicasts history

/-- The identifiers of the messages multicast so far. -/
def multicastIds : List SenderCall → List UInt32
  | [] => []
  | .multicast _ :: history => UInt32.ofNat (multicasts history + 1) :: multicastIds history
  | .ack _ :: history => multicastIds history

/-- The number in the first Ack of `proposer` for message `id`. -/
def firstProposal (id proposer : UInt32) : List SenderCall → Option UInt32
  | [] => none
  | .multicast _ :: history => firstProposal id proposer history
  | .ack m :: history =>
      (firstProposal id proposer history).or
        (if m.msgId = id ∧ m.proposer = proposer ∧ id ∈ multicastIds history then
          some m.proposedSeq
        else none)

/-- Every proposer is in `recipientIdMap`. -/
def ProposersKnown (history : List SenderCall) : Prop :=
  ∀ m, .ack m ∈ history → (D.recipientIdMap m.proposer).isSome

/-- The pair is the largest of the first proposals; of equal numbers the one with the smallest
proposer. -/
def IsLargest (id : UInt32) (history : List SenderCall) (seq proposer : UInt32) : Prop :=
  firstProposal id proposer history = some seq ∧
    ∀ other proposed, firstProposal id other history = some proposed →
      proposed < seq ∨ proposed = seq ∧ proposer ≤ other

/-- The numbers in the `SeqMessage` for message `id`. -/
def finalOf (id : UInt32) (queued : List SeqMessage) : Option (UInt32 × UInt32) :=
  (queued.find? fun m => m.msgId = id).map fun m => (m.finalSeq, m.finalSeqProposer)

structure Aggregated (history : List SenderCall) (s : MulticastService Host)
    (queued : List SeqMessage) : Prop where
  once : (queued.map SeqMessage.msgId).Nodup
  exactly : ∀ id, id ∈ queued.map SeqMessage.msgId ↔
    D.hostnames ≠ [] ∧
      ∀ r ∈ D.hostnames, (firstProposal id (D.processIdentifier r) history).isSome
  largest : ∀ m ∈ queued, IsLargest m.msgId history m.finalSeq m.finalSeqProposer
  /-- `createSeqMessage` would find the same pair in any other order of the map. -/
  anyOrder : ∀ m ∈ queued, ∃ ids, s.proposedSeqIdMap m.msgId = some ids ∧
    ∀ order : List ((_ : UInt32) × UInt32), order.Perm ids.entries →
      maxElement proposalLt order = some ⟨m.finalSeqProposer, m.finalSeq⟩

variable {D self} {history : List SenderCall} {s : MulticastService Host}
  {queued : List SeqMessage}

theorem IsLargest.unique {id : UInt32} {history' : List SenderCall} {seq proposer seq' proposer'}
    (top : IsLargest id history seq proposer) (top' : IsLargest id history' seq' proposer')
    (same : ∀ other, firstProposal id other history' = firstProposal id other history) :
    seq' = seq ∧ proposer' = proposer := by
  have above := top.2 proposer' seq' (by rw [← same]; exact top'.1)
  have below := top'.2 proposer seq (by rw [same]; exact top.1)
  rcases above with less | ⟨rfl, le⟩
  · rcases below with less' | ⟨rfl, _⟩
    · exact absurd less' (UInt32.lt_asymm less)
    · exact absurd less (UInt32.lt_irrefl _)
  · rcases below with less' | ⟨_, le'⟩
    · exact absurd less' (UInt32.lt_irrefl _)
    · exact ⟨rfl, UInt32.le_antisymm le' le⟩

theorem mem_multicastIds (small : multicasts history < UInt32.size) {id : UInt32} :
    id ∈ multicastIds history ↔ 1 ≤ id.toNat ∧ id.toNat ≤ multicasts history := by
  induction history with
  | nil =>
      unfold multicastIds multicasts
      simp
      omega
  | cons c history ih =>
      cases c with
      | multicast data =>
          rw [multicasts] at small
          rw [multicastIds, multicasts]
          have here : id = UInt32.ofNat (multicasts history + 1) ↔
              id.toNat = multicasts history + 1 := by
            rw [← UInt32.toNat_inj, UInt32.toNat_ofNat_of_lt' small]
          rw [List.mem_cons, here, ih (by omega)]
          omega
      | ack m => exact ih small

theorem mem_multicastIds_of_firstProposal {id proposer : UInt32}
    (some : (firstProposal id proposer history).isSome) : id ∈ multicastIds history := by
  induction history with
  | nil => cases some
  | cons c history ih =>
      cases c with
      | multicast data => exact List.mem_cons_of_mem _ (ih some)
      | ack m =>
          unfold firstProposal at some
          rw [Option.isSome_or, Bool.or_eq_true] at some
          rcases some with earlier | now
          · exact ih earlier
          · split at now
            · rename_i found
              exact found.2.2
            · cases now

/-- The proposers counted are hosts. -/
theorem known_of_firstProposal (known : ProposersKnown D history) {id proposer : UInt32}
    (some : (firstProposal id proposer history).isSome) :
    ∃ r ∈ D.hostnames, D.processIdentifier r = proposer := by
  induction history with
  | nil => cases some
  | cons c history ih =>
      have before : ProposersKnown D history := fun m mem => known m (List.mem_cons_of_mem _ mem)
      cases c with
      | multicast data => exact ih before some
      | ack m =>
          unfold firstProposal at some
          rw [Option.isSome_or, Bool.or_eq_true] at some
          rcases some with earlier | now
          · exact ih before earlier
          · split at now
            · rename_i found
              obtain ⟨r, isHost⟩ := Option.isSome_iff_exists.mp (known m List.mem_cons_self)
              obtain ⟨mem, eq⟩ := Hostfile.recipientIdMap_eq_some isHost
              exact ⟨r, mem, eq.trans found.2.1⟩
            · cases now

theorem firstProposal_of_answered {m : AckMessage}
    (answered : m.msgId ∈ multicastIds history →
      (firstProposal m.msgId m.proposer history).isSome) (id proposer : UInt32) :
    firstProposal id proposer (.ack m :: history) = firstProposal id proposer history := by
  rw [firstProposal]
  split
  · rename_i found
    obtain ⟨rfl, rfl, mem⟩ := found
    obtain ⟨seq, eq⟩ := Option.isSome_iff_exists.mp (answered mem)
    rw [eq, Option.or_some]
    rfl
  · rw [Option.or_none]

theorem firstProposal_of_awaited {m : AckMessage} (mem : m.msgId ∈ multicastIds history)
    (awaited : firstProposal m.msgId m.proposer history = none) (id proposer : UInt32) :
    firstProposal id proposer (.ack m :: history) =
      if m.msgId = id ∧ m.proposer = proposer then some m.proposedSeq
      else firstProposal id proposer history := by
  rw [firstProposal]
  by_cases found : m.msgId = id ∧ m.proposer = proposer
  · obtain ⟨rfl, rfl⟩ := found
    simp [mem, awaited]
  · have notFound : ¬ (m.msgId = id ∧ m.proposer = proposer ∧ id ∈ multicastIds history) :=
      fun ⟨left, right, _⟩ => found ⟨left, right⟩
    rw [if_neg found, if_neg notFound, Option.or_none]

/-! ## What the code keeps of it -/

/-- The proposals kept for message `id`. -/
def kept (s : MulticastService Host) (id : UInt32) : ProposedSeqIds :=
  (s.proposedSeqIdMap id).getD ∅

/-- `dataMsgSender` and `proposedSeqIdMap` share the first Acks between them. -/
structure Counts (D : Deployment Host) (history : List SenderCall) (s : MulticastService Host) :
    Prop where
  counter : s.msgId.toNat = multicasts history
  wellFormed : D.hostnames ≠ [] → s.dataMsgSender.WellFormed
  owes : ∀ id r, s.dataMsgSender.Owes id r ↔
    id ∈ multicastIds history ∧ r ∈ D.hostnames ∧
      firstProposal id (D.processIdentifier r) history = none
  lookup : ∀ id proposer, (s.kept id).lookup proposer = firstProposal id proposer history

/-- The messages queued, and where their numbers come from. -/
structure Finals (D : Deployment Host) (history : List SenderCall) (s : MulticastService Host)
    (queued : List SeqMessage) : Prop where
  once : (queued.map SeqMessage.msgId).Nodup
  exactly : ∀ id, id ∈ queued.map SeqMessage.msgId ↔
    D.hostnames ≠ [] ∧
      ∀ r ∈ D.hostnames, (firstProposal id (D.processIdentifier r) history).isSome
  final : ∀ m ∈ queued,
    maxElement proposalLt (s.kept m.msgId).entries = some ⟨m.finalSeqProposer, m.finalSeq⟩

theorem counts_initial : Counts D [] ({} : MulticastService Host) where
  counter := rfl
  wellFormed _ := ContinuousMsgSender.wellFormed_empty
  owes id r := by
    constructor
    · rintro ⟨_, mem, _⟩
      cases mem
    · rintro ⟨mem, _⟩
      cases mem
  lookup id proposer := rfl

theorem finals_initial : Finals D [] ({} : MulticastService Host) [] where
  once := List.nodup_nil
  exactly id := by
    constructor
    · intro mem
      cases mem
    · rintro ⟨nonempty, all⟩
      obtain ⟨r, mem⟩ := List.exists_mem_of_ne_nil _ nonempty
      cases all r mem
  final m mem := by cases mem

theorem firstProposal_eq_none {id : UInt32} (notMem : id ∉ multicastIds history)
    (proposer : UInt32) : firstProposal id proposer history = none := by
  rw [← Option.not_isSome_iff_eq_none]
  exact mt mem_multicastIds_of_firstProposal notMem

/-! ### A new message -/

theorem Counts.next (counts : Counts D history s) :
    s.msgId + 1 = UInt32.ofNat (multicasts history + 1) := by
  rw [← counts.counter]
  simp

/-- The identifier of the next message has not been used. -/
theorem Counts.new (counts : Counts D history s) (small : multicasts history + 1 < UInt32.size) :
    s.msgId + 1 ∉ multicastIds history := by
  rw [mem_multicastIds (by omega), counts.next, UInt32.toNat_ofNat_of_lt' small]
  omega

theorem Counts.multicast (counts : Counts D history s)
    (small : multicasts history + 1 < UInt32.size) (data : UInt32) :
    Counts D (.multicast data :: history) (s.multicast D self data) where
  counter := by
    show (s.msgId + 1).toNat = multicasts history + 1
    rw [counts.next, UInt32.toNat_ofNat_of_lt' small]
  wellFormed nonempty := by
    refine (counts.wellFormed nonempty).queueMsg nonempty ?_
    intro held
    obtain ⟨r, owed⟩ := (counts.wellFormed nonempty).exists_owes held
    exact counts.new small ((counts.owes _ r).mp owed).1
  owes id r := by
    have enters := ContinuousMsgSender.owes_queueMsg s.dataMsgSender D.hostnames
      (s.createDataMessage D self data) id r
    rw [counts.owes] at enters
    refine enters.trans ?_
    show _ ∨ s.msgId + 1 = id ∧ r ∈ D.hostnames ↔
      id ∈ UInt32.ofNat (multicasts history + 1) :: multicastIds history ∧ r ∈ D.hostnames ∧
        firstProposal id (D.processIdentifier r) history = none
    rw [← counts.next, List.mem_cons]
    constructor
    · rintro (⟨mem, isHost, awaited⟩ | ⟨rfl, isHost⟩)
      · exact ⟨Or.inr mem, isHost, awaited⟩
      · exact ⟨Or.inl rfl, isHost, firstProposal_eq_none (counts.new small) _⟩
    · rintro ⟨rfl | mem, isHost, awaited⟩
      · exact Or.inr ⟨rfl, isHost⟩
      · exact Or.inl ⟨mem, isHost, awaited⟩
  lookup := counts.lookup

/-! ### An Ack that is not awaited -/

theorem Counts.answered (counts : Counts D history s) {m : AckMessage} {recipient : Host}
    (known : D.recipientIdMap m.proposer = some recipient)
    (notOwed : ¬ s.dataMsgSender.Owes m.msgId recipient) (id proposer : UInt32) :
    firstProposal id proposer (.ack m :: history) = firstProposal id proposer history := by
  obtain ⟨isHost, isProposer⟩ := Hostfile.recipientIdMap_eq_some known
  refine firstProposal_of_answered (fun mem => ?_) id proposer
  rw [Option.isSome_iff_ne_none, ← isProposer]
  exact fun awaited => notOwed ((counts.owes _ _).mpr ⟨mem, isHost, awaited⟩)

theorem Counts.congr (counts : Counts D history s) {m : AckMessage}
    (same : ∀ id proposer,
      firstProposal id proposer (.ack m :: history) = firstProposal id proposer history) :
    Counts D (.ack m :: history) s where
  counter := counts.counter
  wellFormed := counts.wellFormed
  owes id r := by
    rw [same]
    exact counts.owes id r
  lookup id proposer := by
    rw [same]
    exact counts.lookup id proposer

theorem Finals.congr (finals : Finals D history s queued) {m : AckMessage}
    (same : ∀ id proposer,
      firstProposal id proposer (.ack m :: history) = firstProposal id proposer history) :
    Finals D (.ack m :: history) s queued where
  once := finals.once
  exactly id := by
    simp only [same]
    exact finals.exactly id
  final := finals.final

/-! ### The first Ack of a recipient -/

/-- The Ack is the first one of `recipient`. -/
structure Awaited (D : Deployment Host) (history : List SenderCall) (m : AckMessage)
    (recipient : Host) : Prop where
  isHost : recipient ∈ D.hostnames
  isProposer : D.processIdentifier recipient = m.proposer
  mem : m.msgId ∈ multicastIds history
  none : firstProposal m.msgId m.proposer history = none

theorem Counts.awaited (counts : Counts D history s) {m : AckMessage} {recipient : Host}
    (known : D.recipientIdMap m.proposer = some recipient)
    (owed : s.dataMsgSender.Owes m.msgId recipient) : Awaited D history m recipient := by
  obtain ⟨isHost, isProposer⟩ := Hostfile.recipientIdMap_eq_some known
  obtain ⟨mem, _, none⟩ := (counts.owes _ _).mp owed
  rw [isProposer] at none
  exact ⟨isHost, isProposer, mem, none⟩

theorem kept_count (m : AckMessage) (recipient : Host) (id : UInt32) :
    (s.count m recipient).kept id =
      if m.msgId = id then (s.kept id).insert m.proposer m.proposedSeq else s.kept id := by
  by_cases same : m.msgId = id
  · subst same
    simp [kept, count, proposalsWith]
  · simp [kept, count, same, Function.update_of_ne (Ne.symm same)]

theorem Counts.count (counts : Counts D history s) {m : AckMessage} {recipient : Host}
    (awaited : Awaited D history m recipient) :
    Counts D (.ack m :: history) (s.count m recipient) where
  counter := counts.counter
  wellFormed nonempty := (counts.wellFormed nonempty).removeRecipient _ _
  owes id r := by
    have wf := counts.wellFormed (List.ne_nil_of_mem awaited.isHost)
    have discharges := wf.owes_removeRecipient m.msgId recipient id r
    rw [counts.owes] at discharges
    refine discharges.trans ?_
    rw [firstProposal_of_awaited awaited.mem awaited.none, ← awaited.isProposer]
    constructor
    · rintro ⟨⟨mem, isHost, none⟩, apart⟩
      refine ⟨mem, isHost, ?_⟩
      rw [if_neg]
      · exact none
      · rintro ⟨rfl, same⟩
        exact apart ⟨rfl, (Hostfile.processIdentifier_inj awaited.isHost isHost same).symm⟩
    · rintro ⟨mem, isHost, none⟩
      split at none
      · cases none
      · rename_i apart
        refine ⟨⟨mem, isHost, none⟩, ?_⟩
        rintro ⟨rfl, rfl⟩
        exact apart ⟨rfl, rfl⟩
  lookup id proposer := by
    rw [firstProposal_of_awaited awaited.mem awaited.none, kept_count, ← counts.lookup]
    by_cases same : m.msgId = id
    · subst same
      by_cases sameToo : m.proposer = proposer
      · subst sameToo
        simp
      · simp [sameToo, AList.lookup_insert_ne (Ne.symm sameToo)]
    · simp [same]

/-- The message had not been queued. -/
theorem Finals.new (finals : Finals D history s queued) {m : AckMessage} {recipient : Host}
    (awaited : Awaited D history m recipient) : m.msgId ∉ queued.map SeqMessage.msgId := by
  intro mem
  have proposed := ((finals.exactly m.msgId).mp mem).2 recipient awaited.isHost
  rw [awaited.isProposer, awaited.none] at proposed
  cases proposed

theorem Finals.final_count (finals : Finals D history s queued) {m : AckMessage}
    {recipient : Host} (awaited : Awaited D history m recipient) :
    ∀ seqMsg ∈ queued, maxElement proposalLt ((s.count m recipient).kept seqMsg.msgId).entries =
      some ⟨seqMsg.finalSeqProposer, seqMsg.finalSeq⟩ := by
  intro seqMsg mem
  have apart : m.msgId ≠ seqMsg.msgId := fun eq =>
    finals.new awaited (eq ▸ List.mem_map_of_mem mem)
  rw [kept_count, if_neg apart]
  exact finals.final seqMsg mem

theorem Finals.exactly_of_ne (finals : Finals D history s queued) {m : AckMessage}
    {recipient : Host} (awaited : Awaited D history m recipient) {id : UInt32}
    (apart : m.msgId ≠ id) :
    id ∈ queued.map SeqMessage.msgId ↔
      D.hostnames ≠ [] ∧
        ∀ r ∈ D.hostnames,
          (firstProposal id (D.processIdentifier r) (.ack m :: history)).isSome := by
  simp only [firstProposal_of_awaited awaited.mem awaited.none, apart, false_and, if_false]
  exact finals.exactly id

/-- The map is full when every recipient has sent its first Ack. -/
theorem Counts.complete_iff (counts : Counts D history s) (known : ProposersKnown D history)
    (id : UInt32) :
    (s.kept id).entries.length = D.hostnames.length ↔
      ∀ r ∈ D.hostnames, (firstProposal id (D.processIdentifier r) history).isSome := by
  have counted : ∀ j, j ∈ s.kept id ↔ (firstProposal id j history).isSome := fun j => by
    rw [← counts.lookup, AList.lookup_isSome]
  rw [ProposedSeqIds.complete_iff fun j mem => known_of_firstProposal known ((counted j).mp mem)]
  exact forall₂_congr fun r _ => counted _

theorem Finals.incomplete (finals : Finals D history s queued) {m : AckMessage}
    {recipient : Host} (awaited : Awaited D history m recipient)
    (missing : ¬ ∀ r ∈ D.hostnames,
      (firstProposal m.msgId (D.processIdentifier r) (.ack m :: history)).isSome) :
    Finals D (.ack m :: history) (s.count m recipient) queued where
  once := finals.once
  exactly id := by
    by_cases same : m.msgId = id
    · subst same
      exact iff_of_false (finals.new awaited) fun all => missing all.2
    · exact finals.exactly_of_ne awaited same
  final := finals.final_count awaited

theorem Finals.complete (finals : Finals D history s queued) {m : AckMessage}
    {recipient : Host} (awaited : Awaited D history m recipient)
    (all : ∀ r ∈ D.hostnames,
      (firstProposal m.msgId (D.processIdentifier r) (.ack m :: history)).isSome)
    {seqMsg : SeqMessage}
    (created : createSeqMessage m ((s.count m recipient).kept m.msgId) = some seqMsg) :
    Finals D (.ack m :: history)
      { s.count m recipient with
        seqMsgSender := s.seqMsgSender.queueMsg D.hostnames seqMsg } (seqMsg :: queued) := by
  obtain ⟨largest, found, rfl⟩ := Option.map_eq_some_iff.mp created
  refine ⟨?_, fun id => ?_, fun seqMsg mem => ?_⟩
  · rw [List.map_cons, List.nodup_cons]
    exact ⟨finals.new awaited, finals.once⟩
  · rw [List.map_cons, List.mem_cons]
    by_cases same : m.msgId = id
    · subst same
      exact iff_of_true (Or.inl rfl) ⟨List.ne_nil_of_mem awaited.isHost, all⟩
    · rw [← finals.exactly_of_ne awaited same]
      exact or_iff_right fun eq => same eq.symm
  · rcases List.mem_cons.mp mem with rfl | old
    · exact found
    · exact finals.final_count awaited seqMsg old

/-- One Ack, whatever it says. -/
theorem Counts.ack (counts : Counts D history s) (finals : Finals D history s queued)
    {m : AckMessage} (known : ProposersKnown D (.ack m :: history)) :
    ∃ outcome, s.processAckMsg D m = some outcome ∧
      Counts D (.ack m :: history) outcome.service ∧
      Finals D (.ack m :: history) outcome.service (outcome.queued ++ queued) := by
  obtain ⟨recipient, found⟩ := Option.isSome_iff_exists.mp (known m List.mem_cons_self)
  obtain ⟨isHost, _⟩ := Hostfile.recipientIdMap_eq_some found
  have wf := counts.wellFormed (List.ne_nil_of_mem isHost)
  by_cases owed : s.dataMsgSender.Owes m.msgId recipient
  · have awaited := counts.awaited found owed
    have counted := counts.count awaited
    have map : s.proposalsWith m = (s.count m recipient).kept m.msgId := by
      rw [kept_count, if_pos rfl]
      rfl
    have full := counted.complete_iff known m.msgId
    rw [← map] at full
    by_cases complete : (s.proposalsWith m).entries.length = D.hostnames.length
    · obtain ⟨seqMsg, created, eq⟩ := processAckMsg_of_complete found wf owed complete
      rw [map] at created
      refine ⟨_, eq, ⟨counted.counter, counted.wellFormed, counted.owes, counted.lookup⟩, ?_⟩
      exact finals.complete awaited (full.mp complete) created
    · exact ⟨_, processAckMsg_of_incomplete found wf owed complete, counted,
        finals.incomplete awaited (mt full.mpr complete)⟩
  · have same := counts.answered found owed
    exact ⟨_, processAckMsg_of_not_owes found wf owed, counts.congr same, finals.congr same⟩

/-! ## Runs -/

theorem counts_aggregate (known : ProposersKnown D history)
    (small : multicasts history < UInt32.size) :
    ∃ s queued, aggregate D self history = some (s, queued) ∧
      Counts D history s ∧ Finals D history s queued := by
  induction history with
  | nil => exact ⟨_, _, rfl, counts_initial, finals_initial⟩
  | cons c history ih =>
      have before : ProposersKnown D history := fun m mem => known m (List.mem_cons_of_mem _ mem)
      cases c with
      | multicast data =>
          rw [multicasts] at small
          obtain ⟨s, queued, eq, counts, finals⟩ := ih before (by omega)
          refine ⟨s.multicast D self data, queued, ?_, counts.multicast small data, ?_⟩
          · rw [aggregate, eq]
            rfl
          · exact ⟨finals.once, finals.exactly, finals.final⟩
      | ack m =>
          obtain ⟨s, queued, eq, counts, finals⟩ := ih before small
          obtain ⟨outcome, taken, counts', finals'⟩ := counts.ack finals known
          refine ⟨outcome.service, outcome.queued ++ queued, ?_, counts', finals'⟩
          simp only [aggregate, eq, call, taken, Option.bind_eq_bind, Option.bind_some]

theorem proposalKey_injective : Function.Injective fun p : (_ : UInt32) × UInt32 =>
    (toLex (p.2.toNat, OrderDual.toDual p.1.toNat) : ℕ ×ₗ ℕᵒᵈ) := by
  rintro ⟨proposer, seq⟩ ⟨proposer', seq'⟩ eq
  have both := Prod.mk.inj (toLex.injective eq)
  have seqs : seq = seq' := UInt32.toNat_inj.mp both.1
  have proposers : proposer = proposer' := UInt32.toNat_inj.mp (OrderDual.toDual.injective both.2)
  rw [seqs, proposers]

theorem aggregated_of_counts (counts : Counts D history s) (finals : Finals D history s queued) :
    Aggregated D history s queued where
  once := finals.once
  exactly := finals.exactly
  largest m mem := by
    have found := finals.final m mem
    have here := maxElement_mem keyedBy_proposalLt found
    refine ⟨?_, fun other proposed eq => ?_⟩
    · rw [← counts.lookup]
      exact AList.mem_lookup_iff.mpr here
    · rw [← counts.lookup] at eq
      have below := le_maxElement keyedBy_proposalLt found _ (AList.mem_lookup_iff.mp eq)
      rw [Prod.Lex.le_iff] at below
      simpa [UInt32.lt_iff_toNat_lt, UInt32.le_iff_toNat_le, ← UInt32.toNat_inj] using below
  anyOrder m mem := by
    have found := finals.final m mem
    cases entry : s.proposedSeqIdMap m.msgId with
    | none =>
        rw [kept, entry] at found
        cases found
    | some ids =>
        rw [kept, entry, Option.getD_some] at found
        refine ⟨ids, rfl, fun order perm => ?_⟩
        rw [maxElement_perm keyedBy_proposalLt proposalKey_injective perm, found]

theorem finalOf_eq_some {id seq proposer : UInt32} (eq : finalOf id queued = some (seq, proposer)) :
    ∃ m ∈ queued, m.msgId = id ∧ m.finalSeq = seq ∧ m.finalSeqProposer = proposer := by
  obtain ⟨m, found, pair⟩ := Option.map_eq_some_iff.mp eq
  refine ⟨m, List.mem_of_find?_eq_some found, by simpa using List.find?_some found, ?_⟩
  exact Prod.mk.inj pair

theorem finalOf_eq_none {id : UInt32} :
    finalOf id queued = none ↔ id ∉ queued.map SeqMessage.msgId := by
  rw [finalOf, Option.map_eq_none_iff, List.find?_eq_none]
  simp

/-- The numbers of a message depend on its first Acks only, not on the order they came in. -/
theorem Aggregated.finalOf_eq {history' : List SenderCall} {s' : MulticastService Host}
    {queued' : List SeqMessage} (run : Aggregated D history s queued)
    (run' : Aggregated D history' s' queued') {id : UInt32}
    (same : ∀ proposer, firstProposal id proposer history' = firstProposal id proposer history) :
    finalOf id queued' = finalOf id queued := by
  have together : id ∈ queued'.map SeqMessage.msgId ↔ id ∈ queued.map SeqMessage.msgId := by
    rw [run.exactly, run'.exactly]
    simp only [same]
  cases final : finalOf id queued with
  | none => rwa [finalOf_eq_none, together, ← finalOf_eq_none]
  | some pair =>
      cases final' : finalOf id queued' with
      | none =>
          rw [finalOf_eq_none, together, ← finalOf_eq_none, final] at final'
          cases final'
      | some pair' =>
          obtain ⟨seq, proposer⟩ := pair
          obtain ⟨seq', proposer'⟩ := pair'
          obtain ⟨m, mem, rfl, rfl, rfl⟩ := finalOf_eq_some final
          obtain ⟨m', mem', eq, rfl, rfl⟩ := finalOf_eq_some final'
          have top' := run'.largest m' mem'
          rw [eq] at top'
          obtain ⟨seqs, proposers⟩ := (run.largest m mem).unique top' same
          rw [seqs, proposers]

/-- **The final number is the largest of the first proposals.**  In every history in which
`msgId` does not wrap, and the same in any two histories with the same first Acks for the
message. -/
theorem aggregated (known : ProposersKnown D history) (small : multicasts history < UInt32.size) :
    ∃ s queued, aggregate D self history = some (s, queued) ∧ Aggregated D history s queued ∧
      ∀ history', ProposersKnown D history' → multicasts history' < UInt32.size →
        ∃ s' queued', aggregate D self history' = some (s', queued') ∧
          ∀ id, (∀ proposer,
              firstProposal id proposer history' = firstProposal id proposer history) →
            finalOf id queued' = finalOf id queued := by
  obtain ⟨s, queued, eq, counts, finals⟩ := counts_aggregate known small
  have run := aggregated_of_counts counts finals
  refine ⟨s, queued, eq, run, fun history' known' small' => ?_⟩
  obtain ⟨s', queued', eq', counts', finals'⟩ := counts_aggregate known' small'
  exact ⟨s', queued', eq', fun id same =>
    run.finalOf_eq (aggregated_of_counts counts' finals') same⟩

/-- One message that both hosts have answered, then an Ack for the next one, an Ack for the
first one once more, and one for a message that does not exist. -/
def answeredRun : List SenderCall :=
  [.ack ⟨2, 1, 8, 9, 1⟩, .ack ⟨2, 1, 1, 9, 1⟩, .ack ⟨2, 1, 2, 6, 1⟩, .multicast 8,
    .ack ⟨2, 1, 1, 7, 2⟩, .ack ⟨2, 1, 1, 7, 1⟩, .multicast 7]

theorem aggregated_answeredRun :
    (aggregate twoHosts false answeredRun).map (fun result => finalOf 1 result.2) =
        some (some (7, 1)) ∧
      ∃ s queued, aggregate twoHosts false answeredRun = some (s, queued) ∧
        Aggregated twoHosts answeredRun s queued ∧
        ∀ history', ProposersKnown twoHosts history' → multicasts history' < UInt32.size →
          ∃ s' queued', aggregate twoHosts false history' = some (s', queued') ∧
            ∀ id, (∀ proposer,
                firstProposal id proposer history' = firstProposal id proposer answeredRun) →
              finalOf id queued' = finalOf id queued := by
  have known : ProposersKnown twoHosts answeredRun := by
    intro m mem
    simp only [answeredRun, List.mem_cons, SenderCall.ack.injEq, reduceCtorEq, List.not_mem_nil,
      or_false, false_or] at mem
    rcases mem with rfl | rfl | rfl | rfl | rfl <;> decide +kernel
  exact ⟨by decide +kernel, aggregated known (by decide)⟩

/-! ## When `msgId` wraps -/

/-- The service after `k` more calls of `multicast`. -/
structure Burst (D : Deployment Host) (s : MulticastService Host) (k : ℕ)
    (s' : MulticastService Host) : Prop where
  msgId : s'.msgId = s.msgId + UInt32.ofNat k
  map : s'.proposedSeqIdMap = s.proposedSeqIdMap
  wellFormed : s'.dataMsgSender.WellFormed
  owes : ∀ id r, s'.dataMsgSender.Owes id r ↔
    (∃ j, 1 ≤ j ∧ j ≤ k ∧ id = s.msgId + UInt32.ofNat j) ∧ r ∈ D.hostnames

theorem Burst.multicast (nonempty : D.hostnames ≠ []) {k : ℕ} (bound : k < UInt32.size)
    {s' : MulticastService Host} (burst : Burst D s k s') (data : UInt32) :
    Burst D s (k + 1) (s'.multicast D self data) := by
  have next : s'.msgId + 1 = s.msgId + UInt32.ofNat (k + 1) := by
    rw [burst.msgId, UInt32.ofNat_add, UInt32.add_assoc]
    rfl
  refine ⟨next, burst.map, burst.wellFormed.queueMsg nonempty ?_, fun id r => ?_⟩
  · intro held
    obtain ⟨r, owed⟩ := burst.wellFormed.exists_owes held
    obtain ⟨⟨j, low, high, eq⟩, _⟩ := (burst.owes _ r).mp owed
    have same : UInt32.ofNat (k + 1) = UInt32.ofNat j :=
      (UInt32.add_right_inj s.msgId).mp (next.symm.trans eq)
    have wrapped := congrArg UInt32.toNat same
    rw [UInt32.toNat_ofNat', UInt32.toNat_ofNat'] at wrapped
    have size : UInt32.size = 2 ^ 32 := rfl
    rw [size] at bound
    omega
  · have enters := ContinuousMsgSender.owes_queueMsg s'.dataMsgSender D.hostnames
      (s'.createDataMessage D self data) id r
    rw [burst.owes] at enters
    refine enters.trans ?_
    show _ ∨ s'.msgId + 1 = id ∧ r ∈ D.hostnames ↔ _
    rw [next]
    constructor
    · rintro (⟨⟨j, low, high, eq⟩, isHost⟩ | ⟨rfl, isHost⟩)
      · exact ⟨⟨j, low, by omega, eq⟩, isHost⟩
      · exact ⟨⟨k + 1, by omega, le_refl _, rfl⟩, isHost⟩
    · rintro ⟨⟨j, low, high, eq⟩, isHost⟩
      rcases Nat.lt_or_eq_of_le high with less | rfl
      · exact Or.inl ⟨⟨j, low, by omega, eq⟩, isHost⟩
      · exact Or.inr ⟨eq.symm, isHost⟩

theorem burst_aggregate (nonempty : D.hostnames ≠ [])
    (run : aggregate D self history = some (s, queued))
    (idle : s.dataMsgSender = {}) {k : ℕ} (bound : k ≤ UInt32.size) :
    ∃ s', aggregate D self (List.replicate k (.multicast 0) ++ history) = some (s', queued) ∧
      Burst D s k s' := by
  induction k with
  | zero =>
      refine ⟨s, run, by simp, rfl, by rw [idle]; exact ContinuousMsgSender.wellFormed_empty, ?_⟩
      intro id r
      rw [idle]
      constructor
      · rintro ⟨_, mem, _⟩
        cases mem
      · rintro ⟨⟨j, low, high, _⟩, _⟩
        omega
  | succ k ih =>
      obtain ⟨s', eq, burst⟩ := ih (by omega)
      refine ⟨s'.multicast D self 0, ?_, burst.multicast nonempty (by omega) 0⟩
      rw [List.replicate_succ, List.cons_append, aggregate, eq]
      rfl

/-- A message that both hosts have answered. -/
def firstMessage : List SenderCall :=
  [.ack ⟨2, 1, 1, 7, 2⟩, .ack ⟨2, 1, 1, 5, 1⟩, .multicast 0]

def lateAck : AckMessage := ⟨2, 1, 1, 6, 1⟩

/-- `k` more messages, then one host answers number 1. -/
def overrun (k : ℕ) : List SenderCall :=
  .ack lateAck :: (List.replicate k (.multicast 0) ++ firstMessage)

def answeredFirst : MulticastService Bool × List SeqMessage :=
  (aggregate twoHosts false firstMessage).get (by decide +kernel)

theorem aggregate_firstMessage :
    aggregate twoHosts false firstMessage = some (answeredFirst.1, [⟨3, 1, 1, 7, 2⟩]) := by
  have queued : answeredFirst.2 = [⟨3, 1, 1, 7, 2⟩] := by decide +kernel
  rw [← queued]
  exact (Option.some_get (by decide +kernel)).symm

/-- The second `SeqMessage` for number 1 takes the number another message got. -/
theorem aggregate_overrun {k : ℕ} (wrap : k = UInt32.size) :
    ∃ s queued, aggregate twoHosts false (overrun k) = some (s, queued) ∧
      queued = [⟨3, 1, 1, 7, 2⟩, ⟨3, 1, 1, 7, 2⟩] := by
  have idle : answeredFirst.1.dataMsgSender = {} := by
    have empty : answeredFirst.1.dataMsgSender.msgList = [] := by
      rw [← List.length_eq_zero_iff]
      decide +kernel
    cases sender : answeredFirst.1.dataMsgSender
    rw [sender] at empty
    rw [← empty]
  obtain ⟨s, eq, burst⟩ := burst_aggregate (List.cons_ne_nil _ _) aggregate_firstMessage idle
    (le_of_eq wrap)
  have owed : s.dataMsgSender.Owes 1 false := by
    refine (burst.owes 1 false).mpr ⟨⟨k, ?_, le_refl k, ?_⟩, by decide⟩
    · rw [wrap]
      decide
    · have first : answeredFirst.1.msgId = 1 := by decide +kernel
      rw [first, wrap]
      decide
  have proposals : s.proposalsWith lateAck =
      answeredFirst.1.proposalsWith lateAck := by
    rw [proposalsWith, burst.map]
    rfl
  have recipient : twoHosts.recipientIdMap lateAck.proposer = some false := by decide +kernel
  have complete : (s.proposalsWith lateAck).entries.length = twoHosts.hostnames.length := by
    rw [proposals]
    decide +kernel
  obtain ⟨seqMsg, created, taken⟩ :=
    processAckMsg_of_complete recipient burst.wellFormed owed complete
  have stale : createSeqMessage lateAck (s.proposalsWith lateAck) =
      some ⟨3, 1, 1, 7, 2⟩ := by
    rw [proposals]
    decide +kernel
  rw [stale, Option.some.injEq] at created
  subst created
  obtain ⟨outcome, taken, again⟩ : ∃ outcome, s.processAckMsg twoHosts lateAck = some outcome ∧
      outcome.queued = [⟨3, 1, 1, 7, 2⟩] := ⟨_, taken, rfl⟩
  refine ⟨outcome.service, outcome.queued ++ [⟨3, 1, 1, 7, 2⟩], ?_, by rw [again]; rfl⟩
  rw [overrun]
  simp only [aggregate, eq, call, taken, Option.bind_eq_bind, Option.bind_some]

/-- Once `msgId` has wrapped, a second `SeqMessage` is queued for the same number, and after the
answer of one host of two. -/
theorem not_aggregated_overrun :
    ¬ ∀ history, ProposersKnown twoHosts history →
      ∃ s queued, aggregate twoHosts false history = some (s, queued) ∧
        Aggregated twoHosts history s queued := by
  intro claim
  obtain ⟨s, queued, eq, twice⟩ := aggregate_overrun rfl
  obtain ⟨s', queued', eq', run⟩ := claim (overrun UInt32.size) (by
    intro m mem
    rw [overrun, List.mem_cons, List.mem_append] at mem
    rcases mem with here | many | first
    · cases here
      decide +kernel
    · cases List.eq_of_mem_replicate many
    · simp only [firstMessage, List.mem_cons, SenderCall.ack.injEq, reduceCtorEq,
        List.not_mem_nil, or_false] at first
      rcases first with rfl | rfl <;> decide +kernel)
  rw [eq] at eq'
  cases eq'
  subst twice
  exact absurd run.once (by decide)

end MulticastService

end GroupComm.Lab1
