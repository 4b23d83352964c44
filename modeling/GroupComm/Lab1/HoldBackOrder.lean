import GroupComm.Lab1.FinalKeys
import GroupComm.Lab1.Representation

/-!
# The order of the hold-back deque

`Standing` is what holds of the hold-back queue of a service between two handlers.  It does not
depend on the other hosts: the datagrams are arbitrary, as long as the counter does not wrap
(`standing_of_reach`).  The services of a network are such services
(`handling_of_reach`).

* `addToQueue` appends a number above all others, so the deque stays sorted without a sort.
* `markDeliverable` moves one entry; it leaves the others sorted, and the delivery loop ends at
  an undeliverable entry.
* `processSeqMsg` advances the counter after the queue has changed, up to the number that it
  has put there.
-/

namespace GroupComm.Lab1

open StdAlgorithm Transition

namespace HoldBackQueue

/-- The entries that `markDeliverable` takes off the deque: those of the batch, if it marks one. -/
def releases (sort : StdSort PendingMsg.lt) (q : HoldBackQueue) (seqMsg : SeqMessage) :
    List PendingMsg :=
  if seqMsg.ident ∈ q.pendingMsgSet then batch sort q seqMsg else []

theorem delivered_eq (sort : StdSort PendingMsg.lt) (q : HoldBackQueue) (seqMsg : SeqMessage) :
    (q.markDeliverable sort seqMsg).delivered = (q.releases sort seqMsg).map (·.dataMsg) := by
  by_cases pending : seqMsg.ident ∈ q.pendingMsgSet
  · rw [markDeliverable_of_mem pending, releases, if_pos pending, batch]
  · rw [markDeliverable_of_notMem sort pending, releases, if_neg pending]
    rfl

end HoldBackQueue

/-! ## A service and its handlers -/

/-- A service between two of its handlers, with the entries it has delivered. -/
structure Handling (Host : Type) where
  service : MulticastService Host := {}
  released : List PendingMsg := []

namespace Handling

/-- What a service is asked to do. -/
inductive Call where
  | multicast (data : UInt32)
  | handle (packet : Packet)
  deriving DecidableEq

variable {Host : Type} [DecidableEq Host] (D : Deployment Host) (p : Host)

/-- The entries delivered while `packet` is handled. -/
def releases (s : MulticastService Host) : Packet → List PendingMsg
  | .seq m => s.holdBackQueue.releases D.sort m
  | _ => []

def step (t : Handling Host) : Call → Option (Handling Host)
  | .multicast data => some { t with service := t.service.multicast D p data }
  | .handle packet =>
      (t.service.processPacket D p packet).map fun o =>
        { service := o.service
          released := t.released ++ releases D t.service packet }

/-- The counter does not wrap. -/
def NoWrap (t : Handling Host) : Call → Prop
  | .handle (.data m) => m.ident ∉ t.service.holdBackQueue.pendingMsgSet →
      t.service.latestSeqId.toNat + 1 < UInt32.size
  | _ => True

instance (t : Handling Host) : ∀ c, Decidable (t.NoWrap c)
  | .handle (.data _) => inferInstanceAs (Decidable (_ → _))
  | .handle (.ack _) => .isTrue trivial
  | .handle (.seq _) => .isTrue trivial
  | .handle (.seqAck _) => .isTrue trivial
  | .multicast _ => .isTrue trivial

/-- The deque of a service between two handlers. -/
structure Standing (t : Handling Host) : Prop where
  sorted : t.service.holdBackQueue.deque.Pairwise fun a b => PendingMsg.lt b a = false
  bounded : ∀ e ∈ t.service.holdBackQueue.deque, e.finalSeqId ≤ t.service.latestSeqId
  boundedDelivered : ∀ e ∈ t.released, e.finalSeqId ≤ t.service.latestSeqId
  own : ∀ e ∈ t.service.holdBackQueue.deque, e.deliverable = false →
    e.finalSeqProposer = D.processIdentifier p
  distinct : t.service.holdBackQueue.deque.Pairwise fun a b =>
    a.deliverable = false → b.deliverable = false → a.finalSeqId ≠ b.finalSeqId
  front : ∀ e rest, t.service.holdBackQueue.deque = e :: rest → e.deliverable = false

variable {D p} {t t' : Handling Host}

/-- A marked message waits behind an undeliverable one whose number is not larger. -/
theorem Standing.waits (standing : t.Standing D p) {before after : List PendingMsg}
    {e : PendingMsg} (split : t.service.holdBackQueue.deque = before ++ e :: after)
    (deliverable : e.deliverable = true) :
    ∃ u ∈ before, u.deliverable = false ∧ u.finalSeqId ≤ e.finalSeqId := by
  cases before with
  | nil =>
      have undeliverable := standing.front e after split
      rw [deliverable] at undeliverable
      cases undeliverable
  | cons u before =>
      have undeliverable := standing.front u _ split
      have sorted := standing.sorted
      rw [split, List.cons_append, List.pairwise_cons] at sorted
      have notLess := sorted.1 e (by simp)
      have below := (PendingMsg.keyedBy_key.not_lt_iff _ _).mp notLess
      rw [PendingMsg.key, PendingMsg.key, Prod.Lex.le_iff] at below
      refine ⟨u, List.mem_cons_self, undeliverable, UInt32.le_iff_toNat_le.mpr ?_⟩
      rcases below with less | same
      · exact le_of_lt less
      · exact le_of_eq same.1

/-! ## What the handlers do to the queue -/

theorem standing_initial : Standing D p ({} : Handling Host) := by
  constructor <;> simp

/-- A call that leaves the queue and the counter alone. -/
theorem Standing.quiet (standing : t.Standing D p) {s : MulticastService Host}
    (queue : s.holdBackQueue = t.service.holdBackQueue)
    (counter : s.latestSeqId = t.service.latestSeqId) :
    Standing D p ⟨s, t.released⟩ := by
  constructor
  · rw [queue]
    exact standing.sorted
  · rw [queue, counter]
    exact standing.bounded
  · rw [counter]
    exact standing.boundedDelivered
  · rw [queue]
    exact standing.own
  · rw [queue]
    exact standing.distinct
  · rw [queue]
    exact standing.front

/-- A new message comes last. -/
theorem Standing.accept (standing : t.Standing D p) {m : DataMessage}
    (noWrap : t.service.latestSeqId.toNat + 1 < UInt32.size) :
    Standing D p ⟨t.service.accept D p m, t.released⟩ := by
  have next : t.service.latestSeqId < t.service.latestSeqId + 1 := by
    rw [UInt32.lt_iff_toNat_lt, toNat_add_one noWrap]
    omega
  have above : ∀ e ∈ t.service.holdBackQueue.deque, e.finalSeqId < t.service.latestSeqId + 1 :=
    fun e mem => UInt32.lt_of_le_of_lt (standing.bounded e mem) next
  refine ⟨?_, fun e mem => ?_, fun e mem => ?_, fun e mem => ?_, ?_, fun e rest eq => ?_⟩
  · refine List.pairwise_append.mpr ⟨standing.sorted, List.pairwise_singleton _ _, ?_⟩
    intro a old b new
    rw [List.mem_singleton] at new
    subst new
    have ordered := (PendingMsg.keyedBy_key a _).mp
      (PendingMsg.lt_of_finalSeqId_lt (b := ⟨m, _, D.processIdentifier p, false⟩) (above a old))
    exact (PendingMsg.keyedBy_key.not_lt_iff _ _).mpr (le_of_lt ordered)
  · rcases List.mem_append.mp mem with old | new
    · exact UInt32.le_of_lt (above e old)
    · rw [List.mem_singleton] at new
      subst new
      exact UInt32.le_refl _
  · exact UInt32.le_of_lt (UInt32.lt_of_le_of_lt (standing.boundedDelivered e mem) next)
  · rcases List.mem_append.mp mem with old | new
    · exact standing.own e old
    · rw [List.mem_singleton] at new
      subst new
      exact fun _ => rfl
  · refine List.pairwise_append.mpr ⟨standing.distinct, List.pairwise_singleton _ _, ?_⟩
    intro a old b new _ _ same
    rw [List.mem_singleton] at new
    subst new
    exact UInt32.lt_irrefl _ (same ▸ above a old)
  · cases deque : t.service.holdBackQueue.deque with
    | nil =>
        rw [MulticastService.accept, deque] at eq
        cases eq
        rfl
    | cons e' rest' =>
        rw [MulticastService.accept, deque] at eq
        cases eq
        exact standing.front e rest' deque

omit [DecidableEq Host] in
theorem latestSeqId_le_finish (s : MulticastService Host) (m : SeqMessage) :
    s.latestSeqId ≤ (s.finish D m).latestSeqId := by
  rw [MulticastService.finish, UInt32.max_def]
  split
  · split
    · assumption
    · exact UInt32.le_refl _
  · exact UInt32.le_refl _

omit [DecidableEq Host] in
theorem finalSeq_le_finish {s : MulticastService Host} {m : SeqMessage}
    (marked : (s.holdBackQueue.markDeliverable D.sort m).marked = true) :
    m.finalSeq ≤ (s.finish D m).latestSeqId := by
  rw [MulticastService.finish, if_pos marked, UInt32.max_def]
  split
  · exact UInt32.le_refl _
  · exact UInt32.le_of_lt (UInt32.not_le.mp (by assumption))

/-- An entry of the sorted deque has a number that the counter reaches. -/
theorem Standing.le_of_mem_sortedDeque (standing : t.Standing D p) {m : SeqMessage}
    (pending : m.ident ∈ t.service.holdBackQueue.pendingMsgSet) {e : PendingMsg}
    (mem : e ∈ HoldBackQueue.sortedDeque D.sort t.service.holdBackQueue m) :
    e.finalSeqId ≤ (t.service.finish D m).latestSeqId := by
  rcases HoldBackQueue.mem_sortedDeque mem with old | ⟨e', old, same, rfl⟩
  · exact UInt32.le_trans (standing.bounded e old) (latestSeqId_le_finish _ m)
  · apply finalSeq_le_finish
    rw [HoldBackQueue.markDeliverable_of_mem pending]
    exact (HoldBackQueue.marked_of_mem D.sort old same).1

omit [DecidableEq Host] in
/-- An undeliverable entry of the sorted deque was there before. -/
theorem mem_of_undeliverable {q : HoldBackQueue} {m : SeqMessage} {e : PendingMsg}
    (mem : e ∈ HoldBackQueue.sortedDeque D.sort q m) (undeliverable : e.deliverable = false) :
    e ∈ q.deque := by
  rcases HoldBackQueue.mem_sortedDeque mem with old | ⟨_, _, _, rfl⟩
  · exact old
  · cases undeliverable

omit [DecidableEq Host] in
/-- Marking leaves no new pair of undeliverable entries. -/
theorem distinct_sortedDeque {q : HoldBackQueue} (m : SeqMessage)
    (distinct : q.deque.Pairwise fun a b =>
      a.deliverable = false → b.deliverable = false → a.finalSeqId ≠ b.finalSeqId) :
    (HoldBackQueue.sortedDeque D.sort q m).Pairwise fun a b =>
      a.deliverable = false → b.deliverable = false → a.finalSeqId ≠ b.finalSeqId := by
  refine ((D.sort.perm _).pairwise_iff fun apart ha hb => (apart hb ha).symm).mpr ?_
  rcases HoldBackQueue.markFirst_cases m q.deque with
    ⟨_, eq⟩ | ⟨before, e, after, split, _, _, eq⟩
  · rw [eq]
    exact distinct
  · rw [eq]
    rw [split, List.pairwise_append, List.pairwise_cons] at distinct
    obtain ⟨left, ⟨_, right⟩, across⟩ := distinct
    refine List.pairwise_append.mpr ⟨left, List.pairwise_cons.mpr ⟨?_, right⟩, ?_⟩
    · intro b _ undeliverable
      cases undeliverable
    · intro a ha b hb
      rcases List.mem_cons.mp hb with rfl | hb
      · intro _ undeliverable
        cases undeliverable
      · exact across a ha b (by simp [hb])

theorem Standing.finish (standing : t.Standing D p) (m : SeqMessage) :
    Standing D p ⟨t.service.finish D m,
      t.released ++ t.service.holdBackQueue.releases D.sort m⟩ := by
  by_cases pending : m.ident ∈ t.service.holdBackQueue.pendingMsgSet
  · set sorted := HoldBackQueue.sortedDeque D.sort t.service.holdBackQueue m with hs
    have queue : (t.service.finish D m).holdBackQueue.deque =
        sorted.dropWhile (·.deliverable) := by
      rw [MulticastService.finish, HoldBackQueue.markDeliverable_of_mem pending]
    have kept : ∀ e ∈ sorted.dropWhile (·.deliverable), e ∈ sorted := fun e mem =>
      (List.dropWhile_sublist _).subset mem
    have bound : ∀ e ∈ sorted, e.finalSeqId ≤ (t.service.finish D m).latestSeqId := fun e mem =>
      standing.le_of_mem_sortedDeque pending mem
    have grown := latestSeqId_le_finish (D := D) t.service m
    refine ⟨?_, fun e mem => ?_, fun e mem => ?_, fun e mem => ?_, ?_, fun e rest eq => ?_⟩
    · rw [queue]
      exact (D.sort.sorted _).sublist (List.dropWhile_sublist _)
    · rw [queue] at mem
      exact bound e (kept e mem)
    · rcases List.mem_append.mp mem with old | new
      · exact UInt32.le_trans (standing.boundedDelivered e old) grown
      · rw [HoldBackQueue.releases, if_pos pending] at new
        exact bound e ((List.takeWhile_sublist _).subset new)
    · rw [queue] at mem
      exact fun undeliverable =>
        standing.own e (mem_of_undeliverable (kept e mem) undeliverable) undeliverable
    · rw [queue]
      exact (distinct_sortedDeque m standing.distinct).sublist (List.dropWhile_sublist _)
    · rw [queue] at eq
      exact HoldBackQueue.front_undeliverable eq
  · have ignored := HoldBackQueue.markDeliverable_of_notMem D.sort pending
    rw [HoldBackQueue.releases, if_neg pending, List.append_nil]
    refine standing.quiet ?_ ?_
    · rw [MulticastService.finish, ignored]
    · rw [MulticastService.finish, ignored]
      rfl

/-! ## Any datagram -/

theorem accept_or_pending {s : MulticastService Host} {m : DataMessage} {o : Outcome Host}
    (handled : s.processDataMsg D p m = some o) :
    m.ident ∈ s.holdBackQueue.pendingMsgSet ∧ o.service = s ∨
      m.ident ∉ s.holdBackQueue.pendingMsgSet ∧ o.service = s.accept D p m := by
  cases sender : D.recipientIdMap m.sender with
  | none => simp [MulticastService.processDataMsg, sender] at handled
  | some src =>
      by_cases pending : m.ident ∈ s.holdBackQueue.pendingMsgSet
      · rw [MulticastService.processDataMsg_of_pending sender pending,
          Option.map_eq_some_iff] at handled
        obtain ⟨_, _, rfl⟩ := handled
        exact Or.inl ⟨pending, rfl⟩
      · rw [MulticastService.processDataMsg_of_new sender pending] at handled
        cases handled
        exact Or.inr ⟨pending, rfl⟩

/-- An Ack leaves the hold-back queue and the counter alone, and delivers nothing. -/
theorem queue_of_processAckMsg {s : MulticastService Host} {m : AckMessage} {o : Outcome Host}
    (handled : s.processAckMsg D m = some o) :
    o.service.holdBackQueue = s.holdBackQueue ∧ o.service.latestSeqId = s.latestSeqId ∧
      o.delivered = [] := by
  cases proposer : D.recipientIdMap m.proposer with
  | none => simp [MulticastService.processAckMsg, proposer] at handled
  | some recipient =>
      simp only [MulticastService.processAckMsg, proposer, Option.bind_eq_bind,
        Option.bind_some] at handled
      split at handled
      · split at handled
        · obtain ⟨seqMsg, _, eq⟩ := Option.bind_eq_some_iff.mp handled
          cases eq
          exact ⟨rfl, rfl, rfl⟩
        · cases handled
          exact ⟨rfl, rfl, rfl⟩
      · cases handled
        exact ⟨rfl, rfl, rfl⟩

/-- **One handler.**  Each restores what it has broken. -/
theorem Standing.step (standing : t.Standing D p) {c : Call} (noWrap : t.NoWrap c)
    (taken : t.step D p c = some t') : t'.Standing D p := by
  cases c with
  | multicast data =>
      cases taken
      exact standing.quiet rfl rfl
  | handle packet =>
      obtain ⟨o, handled, rfl⟩ := Option.map_eq_some_iff.mp taken
      cases packet with
      | data m =>
          show Standing D p ⟨o.service, t.released ++ []⟩
          rw [List.append_nil]
          rcases accept_or_pending handled with ⟨_, eq⟩ | ⟨new, eq⟩
          · rw [eq]
            exact standing
          · rw [eq]
            exact standing.accept (noWrap new)
      | ack m =>
          obtain ⟨queue, counter, _⟩ := queue_of_processAckMsg handled
          show Standing D p ⟨o.service, t.released ++ []⟩
          rw [List.append_nil]
          exact standing.quiet queue counter
      | seq m =>
          cases sender : D.recipientIdMap m.sender with
          | none =>
              simp [MulticastService.processPacket, MulticastService.processSeqMsg, sender]
                at handled
          | some src =>
              rw [MulticastService.processPacket,
                MulticastService.processSeqMsg_eq sender] at handled
              cases handled
              exact standing.finish m
      | seqAck m =>
          cases sender : D.recipientIdMap m.ackSender with
          | none =>
              simp [MulticastService.processPacket, MulticastService.processSeqAckMsg, sender]
                at handled
          | some src =>
              rw [MulticastService.processPacket,
                MulticastService.processSeqAckMsg_eq sender] at handled
              cases handled
              show Standing D p ⟨_, t.released ++ []⟩
              rw [List.append_nil]
              exact standing.quiet rfl rfl

/-- **The hold-back deque between two handlers.**  Whatever datagrams arrive, in whatever
order. -/
theorem standing_of_reach (D : Deployment Host) (p : Host) {t : Handling Host}
    (reach : Reach (step D p) NoWrap {} t) :
    t.Standing D p ∧
      ∀ before e after, t.service.holdBackQueue.deque = before ++ e :: after →
        e.deliverable = true → ∃ u ∈ before, u.deliverable = false ∧ u.finalSeqId ≤ e.finalSeqId := by
  have standing := reach.invariant (P := fun t => t.Standing D p) standing_initial
    fun _ _ _ before noWrap taken => before.step noWrap taken
  exact ⟨standing, fun _ _ _ => standing.waits⟩

/-- A message waits behind one that is not marked yet, and a third one comes last.  The first
message has been delivered before, and is pending again. -/
def waitingRun : List Call :=
  [.handle (.data ⟨1, 1, 1, 7⟩), .handle (.seq ⟨3, 1, 1, 1, 2⟩), .handle (.data ⟨1, 1, 1, 7⟩),
    .handle (.data ⟨1, 1, 2, 8⟩), .multicast 9, .handle (.seq ⟨3, 1, 2, 5, 1⟩),
    .handle (.data ⟨1, 1, 3, 9⟩)]

theorem standing_of_reach_waitingRun : ∃ t : Handling Bool,
    (t.service.holdBackQueue.deque.map (·.finalSeqId) = [2, 5, 6] ∧ t.released.length = 1) ∧
      t.Standing twoHosts true ∧
      ∀ before e after, t.service.holdBackQueue.deque = before ++ e :: after →
        e.deliverable = true → ∃ u ∈ before, u.deliverable = false ∧ u.finalSeqId ≤ e.finalSeqId := by
  have standing := standing_of_reach twoHosts true (Reach.of_isSome
    (show allowedAlong (step twoHosts true) NoWrap {} waitingRun by decide +kernel)
    (by decide +kernel))
  exact ⟨_, by decide +kernel, standing⟩

/-! ## In a network -/

theorem delivered_of_processPacket {s : MulticastService Host} {packet : Packet}
    {o : Outcome Host} (handled : s.processPacket D p packet = some o) :
    o.delivered = (releases D s packet).map (·.dataMsg) := by
  cases packet with
  | data m =>
      obtain ⟨_, _, rest⟩ := Option.bind_eq_some_iff.mp handled
      obtain ⟨_, _, eq⟩ := Option.bind_eq_some_iff.mp rest
      cases eq
      rfl
  | ack m =>
      exact (queue_of_processAckMsg handled).2.2
  | seq m =>
      obtain ⟨_, _, eq⟩ := Option.bind_eq_some_iff.mp handled
      cases eq
      exact HoldBackQueue.delivered_eq _ _ m
  | seqAck m =>
      obtain ⟨_, _, eq⟩ := Option.bind_eq_some_iff.mp handled
      cases eq
      rfl

/-- The host `p` of a system, as a service on its own. -/
def Stands (D : Deployment Host) (p : Host) (s : System Host) : Prop :=
  ∃ t : Handling Host, Reach (step D p) NoWrap {} t ∧ t.service = s.service p ∧
    t.released.map (·.dataMsg) = s.delivered p

/-- **The services of a network.**  Each has run through such handlers, and has delivered what
they released. -/
theorem handling_of_reach (D : Deployment Host) (p : Host) {s : System Host}
    (reach : Reach (System.step D) System.NoWrap (System.initial Host) s) : Stands D p s := by
  induction reach with
  | start => exact ⟨{}, .start, rfl, rfl⟩
  | @next s s' e before noWrap taken ih =>
      obtain ⟨t, reach, service, delivered⟩ := ih
      cases e with
      | multicast q data =>
          obtain ⟨_, _, rfl⟩ := System.step_multicast taken
          by_cases same : p = q
          · subst same
            refine ⟨_, reach.next (e := .multicast data) trivial rfl, ?_, delivered⟩
            simp [service]
          · exact ⟨t, reach, by simp [service, same], delivered⟩
      | sendData q i recipient =>
          obtain ⟨_, _, _, _, rfl⟩ := System.step_sendData taken
          exact ⟨t, reach, service, delivered⟩
      | sendSeq q i recipient =>
          obtain ⟨_, _, _, _, rfl⟩ := System.step_sendSeq taken
          exact ⟨t, reach, service, delivered⟩
      | lose src dst i =>
          rw [System.step_lose taken]
          exact ⟨t, reach, service, delivered⟩
      | receive src dst i copy =>
          obtain ⟨_, packet, found, ⟨o, handled, rfl⟩ | ⟨_, rfl⟩⟩ := System.step_receive taken
          · by_cases same : p = dst
            · subst same
              have noWrapHere : t.NoWrap (.handle packet) := by
                unfold System.NoWrap at noWrap
                have into : s.incoming (.receive src p i copy) = some (p, packet) := by
                  simp [System.incoming, found]
                rw [into] at noWrap
                cases packet with
                | data m =>
                    rw [System.HasNext, ← service] at noWrap
                    exact noWrap
                | ack m => trivial
                | seq m => trivial
                | seqAck m => trivial
              have moved : t.step D p (.handle packet) =
                  some ⟨o.service, t.released ++ releases D t.service packet⟩ := by
                rw [step, service, handled]
                rfl
              refine ⟨_, reach.next noWrapHere moved, by simp, ?_⟩
              rw [List.map_append, delivered, service, ← delivered_of_processPacket handled]
              simp [System.setChannel]
            · refine ⟨t, reach, ?_, ?_⟩
              · rw [System.commit_service_of_ne same]
                exact service
              · rw [System.commit_delivered_of_ne same]
                exact delivered
          · exact ⟨t, reach, service, delivered⟩

end Handling

end GroupComm.Lab1
