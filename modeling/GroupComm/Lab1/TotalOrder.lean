import GroupComm.Library.PrefixOrder
import GroupComm.Lab1.Identifiers
import GroupComm.Lab1.Wrapping

/-!
# Total order of the multicast

The final numbers order the messages: `Precedes` compares them, and the proposers where the
numbers are equal.  As long as neither the counters nor the numbers of the messages wrap, every
host delivers in this order without skipping anything, so the first deliveries at two hosts are
prefixes of one another (`first_deliveries_comparable`).

* `Proposals`: no host proposes a number twice.
* `Sequenced` is the invariant that links the counters, the proposals and the final numbers.
-/

namespace GroupComm.Lab1

open Transition PrefixOrder

namespace System

variable {Host : Type} [DecidableEq Host] {D : Deployment Host} {s s' : System Host}

/-! ## The order of the messages -/

/-- The number of a message, and the proposer that breaks ties. -/
def finalKey (f : SeqMessage) : ℕ ×ₗ ℕ := toLex (f.finalSeq.toNat, f.finalSeqProposer.toNat)

theorem finalKey_lt_iff {f g : SeqMessage} :
    finalKey f < finalKey g ↔ f.finalSeq.toNat < g.finalSeq.toNat ∨
      f.finalSeq.toNat = g.finalSeq.toNat ∧
        f.finalSeqProposer.toNat < g.finalSeqProposer.toNat := by
  rw [finalKey, finalKey, Prod.Lex.lt_iff]
  rfl

/-- Message `id` has a smaller final number than message `id'`. -/
def Precedes (s : System Host) (id id' : MsgIdentifier) : Prop :=
  ∃ f ∈ s.finals, ∃ g ∈ s.finals, f.ident = id ∧ g.ident = id' ∧ finalKey f < finalKey g

/-- The identifiers of the messages delivered at `p`. -/
def deliveredIdents (s : System Host) (p : Host) : List MsgIdentifier :=
  (s.delivered p).map (·.ident)

theorem Identified.precedes_asymm (h : Identified D s) (id id' : MsgIdentifier)
    (before : s.Precedes id id') : ¬ s.Precedes id' id := by
  obtain ⟨f, hf, g, hg, rfl, rfl, less⟩ := before
  rintro ⟨g', hg', f', hf', sameG, sameF, less'⟩
  rw [h.finalUnique hg' hg sameG, h.finalUnique hf' hf sameF] at less'
  exact lt_asymm less less'

/-- The counter of a host is ahead of the numbers it has proposed, and every one of them was
proposed for one message only. -/
structure Proposals (D : Deployment Host) (s : System Host) : Prop where
  proposed : ∀ p ∈ D.hostnames, ∀ id a, s.Accepted p id a →
    a.toNat ≤ (s.service p).latestSeqId.toNat
  distinct : ∀ p ∈ D.hostnames, ∀ id id' a, s.Accepted p id a → s.Accepted p id' a → id = id'

/-- The invariant of the order. -/
structure Sequenced (D : Deployment Host) (s : System Host) : Prop extends Proposals D s where
  /-- The counter is ahead of every final number that has arrived. -/
  settled : ∀ p ∈ D.hostnames, ∀ f ∈ s.finals, s.Settled p f.ident →
    f.finalSeq.toNat ≤ (s.service p).latestSeqId.toNat
  /-- Every acceptance advances the counters by one at most. -/
  small : ∀ p ∈ D.hostnames, (s.service p).latestSeqId.toNat ≤ s.accepted.length
  /-- What is still undeliverable comes after everything delivered. -/
  ahead : ∀ p ∈ D.hostnames, ∀ m ∈ s.delivered p, ∀ f ∈ s.finals, f.ident = m.ident →
    ∀ e ∈ (s.service p).holdBackQueue.deque, e.deliverable = false →
      f.finalSeq < e.finalSeqId
  /-- A host delivers without skipping a message. -/
  gapless : ∀ p ∈ D.hostnames, Gapless s.Precedes (s.deliveredIdents p)

omit [DecidableEq Host] in
theorem proposals_initial : Proposals D (initial Host) := by
  constructor <;> simp [initial, Accepted]

omit [DecidableEq Host] in
theorem Proposals.quiet (h : Proposals D s) (same : SameQueues s s') : Proposals D s' := by
  constructor
  · simpa only [Accepted, same.accepted, same.latestSeqId] using h.proposed
  · simpa only [Accepted, same.accepted] using h.distinct

omit [DecidableEq Host] in
theorem sequenced_initial : Sequenced D (initial Host) := by
  refine ⟨proposals_initial, ?_, ?_, ?_, fun p _ => gapless_nil⟩ <;> simp [initial]

omit [DecidableEq Host] in
theorem Sequenced.quiet (h : Sequenced D s) (same : SameQueues s s')
    (finals : s'.finals = s.finals) : Sequenced D s' := by
  have precedes : s'.Precedes = s.Precedes := by
    funext id id'
    rw [Precedes, Precedes, finals]
  refine ⟨h.toProposals.quiet same, fun p hp => ?_, fun p hp => ?_, fun p hp => ?_,
    fun p hp => ?_⟩
  · rw [finals, same.latestSeqId]
    exact fun f hf settled => h.settled p hp f hf (same.settled.mp settled)
  · rw [same.latestSeqId, same.accepted]
    exact h.small p hp
  · rw [same.delivered, finals, same.queue]
    exact h.ahead p hp
  · rw [precedes, deliveredIdents, same.delivered]
    exact h.gapless p hp

/-! ### A new final number -/

theorem Sequenced.choose (h : Sequenced D s) (sound : Sound D s) (identified' : Identified D s')
    {f : SeqMessage} (same : SameQueues s s') (finals : s'.finals = s.finals ++ [f]) :
    Sequenced D s' := by
  have member : ∀ g, g ∈ s'.finals ↔ g ∈ s.finals ∨ g = f := by
    intro g
    rw [finals, List.mem_append, List.mem_singleton]
  -- the message of the new number is settled nowhere
  have open' : ∀ p ∈ D.hostnames, ¬ s.Settled p f.ident := by
    intro p hp settled
    obtain ⟨g, hg, eq⟩ := (sound.receiver p hp).final_of_settled settled
    exact identified'.ne_of_last_final finals g hg eq
  have old : ∀ p ∈ D.hostnames, ∀ g ∈ s'.finals, s.Settled p g.ident → g ∈ s.finals := by
    intro p hp g hg settled
    rcases (member g).mp hg with old | rfl
    · exact old
    · exact (open' p hp settled).elim
  refine ⟨h.toProposals.quiet same, fun p hp g hg settled => ?_, fun p hp => ?_,
    fun p hp => ?_, fun p hp => ?_⟩
  · rw [same.latestSeqId]
    have before := same.settled.mp settled
    exact h.settled p hp g (old p hp g hg before) before
  · rw [same.latestSeqId, same.accepted]
    exact h.small p hp
  · rw [same.delivered, same.queue]
    intro m hm g hg eq
    exact h.ahead p hp m hm g (old p hp g hg (Or.inl ⟨m, hm, eq.symm⟩)) eq
  · rw [deliveredIdents, same.delivered]
    refine (h.gapless p hp).mono fun id mem id' before => ?_
    obtain ⟨m, hm, rfl⟩ := List.mem_map.mp mem
    obtain ⟨g', hg', g, hg, rfl, eq, less⟩ := before
    have gOld := old p hp g hg (Or.inl ⟨m, hm, eq.symm⟩)
    rcases (member g').mp hg' with g'Old | rfl
    · exact ⟨g', g'Old, g, gOld, rfl, eq, less⟩
    · -- the new number is above that of every delivered message
      obtain ⟨e, he, _, undeliverable, le⟩ := identified'.proposal_le_final hg' hp
        fun settled => open' p hp (same.settled.mp settled)
      rw [same.queue] at he
      have above := UInt32.lt_of_lt_of_le (h.ahead p hp m hm g gOld eq e he undeliverable) le
      rw [UInt32.lt_iff_toNat_lt] at above
      rcases finalKey_lt_iff.mp less with lt | ⟨eq, _⟩
      · omega
      · omega

/-! ### An accepted message -/

/-- Where the counters are once a message has been accepted. -/
theorem latestSeqId_acceptance {p src : Host} {m : DataMessage}
    (noWrap : (s.service p).latestSeqId.toNat + 1 < UInt32.size) (q : Host) :
    ((s.commit p (s.acceptance D p src m)).service q).latestSeqId.toNat =
      if q = p then (s.service p).latestSeqId.toNat + 1
      else (s.service q).latestSeqId.toNat := by
  split
  · rename_i same
    subst same
    rw [commit_service_self]
    change ((s.service q).latestSeqId + 1).toNat = _
    exact toNat_add_one noWrap
  · rename_i other
    rw [commit_service_of_ne other]

theorem latestSeqId_le_acceptance {p src : Host} {m : DataMessage}
    (noWrap : (s.service p).latestSeqId.toNat + 1 < UInt32.size) (q : Host) :
    (s.service q).latestSeqId.toNat ≤
      ((s.commit p (s.acceptance D p src m)).service q).latestSeqId.toNat := by
  rw [latestSeqId_acceptance noWrap]
  split
  · rename_i same
    rw [same]
    exact Nat.le_succ _
  · exact le_refl _

/-- The counter stays ahead of the numbers that the host has proposed. -/
theorem proposed_acceptance {p src q : Host} {m : DataMessage}
    (noWrap : (s.service p).latestSeqId.toNat + 1 < UInt32.size)
    (proposed : ∀ id a, s.Accepted q id a → a.toNat ≤ (s.service q).latestSeqId.toNat)
    {id : MsgIdentifier} {a : UInt32}
    (accepted : (s.commit p (s.acceptance D p src m)).Accepted q id a) :
    a.toNat ≤ ((s.commit p (s.acceptance D p src m)).service q).latestSeqId.toNat := by
  rcases accepted_acceptance.mp accepted with old | ⟨rfl, _, rfl⟩
  · exact le_trans (proposed id a old) (latestSeqId_le_acceptance noWrap q)
  · rw [commit_service_self]
    exact le_refl _

/-- The new number is above the earlier ones of the host. -/
theorem distinct_acceptance {p src q : Host} {m : DataMessage}
    (noWrap : (s.service p).latestSeqId.toNat + 1 < UInt32.size)
    (proposed : ∀ id a, s.Accepted q id a → a.toNat ≤ (s.service q).latestSeqId.toNat)
    (distinct : ∀ id id' a, s.Accepted q id a → s.Accepted q id' a → id = id')
    {id id' : MsgIdentifier} {a : UInt32}
    (left : (s.commit p (s.acceptance D p src m)).Accepted q id a)
    (right : (s.commit p (s.acceptance D p src m)).Accepted q id' a) : id = id' := by
  have above : q = p → ∀ id, ¬ s.Accepted q id ((s.service p).latestSeqId + 1) := by
    rintro rfl id accepted
    have le := proposed id _ accepted
    rw [toNat_add_one noWrap] at le
    exact Nat.not_succ_le_self _ le
  rcases accepted_acceptance.mp left with old | ⟨here, rfl, rfl⟩
  · rcases accepted_acceptance.mp right with old' | ⟨here, rfl, rfl⟩
    · exact distinct id id' a old old'
    · exact (above here id old).elim
  · rcases accepted_acceptance.mp right with old' | ⟨_, rfl, _⟩
    · exact (above here id' old').elim
    · rfl

theorem Proposals.accept (h : Proposals D s) {p src : Host} {m : DataMessage}
    (noWrap : (s.service p).latestSeqId.toNat + 1 < UInt32.size) :
    Proposals D (s.commit p (s.acceptance D p src m)) where
  proposed q hq _ _ := proposed_acceptance noWrap (h.proposed q hq)
  distinct q hq _ _ _ := distinct_acceptance noWrap (h.proposed q hq) (h.distinct q hq)

theorem Sequenced.accept (h : Sequenced D s) {p src : Host} {m : DataMessage}
    (hp : p ∈ D.hostnames)
    (bound : (s.commit p (s.acceptance D p src m)).accepted.length < UInt32.size) :
    Sequenced D (s.commit p (s.acceptance D p src m)) := by
  set t := s.commit p (s.acceptance D p src m) with ht
  have length : t.accepted.length = s.accepted.length + 1 := by simp [ht, acceptance]
  have noWrap : (s.service p).latestSeqId.toNat + 1 < UInt32.size := by
    have small := h.small p hp
    omega
  have latest : ∀ q, (t.service q).latestSeqId.toNat =
      if q = p then (s.service p).latestSeqId.toNat + 1 else (s.service q).latestSeqId.toNat :=
    latestSeqId_acceptance noWrap
  have finals : t.finals = s.finals := by simp [ht, acceptance]
  have delivered : t.delivered = s.delivered := by
    funext q
    by_cases same : q = p
    · simp [ht, acceptance, same]
    · rw [ht, commit_delivered_of_ne same]
  have deque : ∀ q, ∀ e ∈ (t.service q).holdBackQueue.deque,
      e ∈ (s.service q).holdBackQueue.deque ∨
        q = p ∧ e = ⟨m, (s.service p).latestSeqId + 1, D.processIdentifier p, false⟩ := by
    intro q e mem
    by_cases same : q = p
    · subst same
      rw [ht, commit_service_self] at mem
      rcases List.mem_append.mp mem with old | new
      · exact Or.inl old
      · exact Or.inr ⟨rfl, List.mem_singleton.mp new⟩
    · rw [ht, commit_service_of_ne same] at mem
      exact Or.inl mem
  have precedes : t.Precedes = s.Precedes := by
    funext id id'
    rw [Precedes, Precedes, finals]
  refine ⟨h.toProposals.accept noWrap, fun q hq f hf settled => ?_, fun q hq => ?_,
    fun q hq d hd f hf eq e he undeliverable => ?_, fun q hq => ?_⟩
  · rw [finals] at hf
    exact le_trans (h.settled q hq f hf (settled_of_settled_acceptance settled))
      (latestSeqId_le_acceptance noWrap q)
  · rw [latest, length]
    have small := h.small q hq
    split
    · rename_i same
      rw [← same]
      omega
    · omega
  · rw [delivered] at hd
    rw [finals] at hf
    rcases deque q e he with old | ⟨rfl, rfl⟩
    · exact h.ahead q hq d hd f hf eq e old undeliverable
    · have caught := h.settled q hq f hf (Or.inl ⟨d, hd, eq.symm⟩)
      rw [UInt32.lt_iff_toNat_lt]
      change f.finalSeq.toNat < ((s.service q).latestSeqId + 1).toNat
      rw [toNat_add_one noWrap]
      exact Nat.lt_succ_of_le caught
  · rw [precedes, deliveredIdents, delivered]
    exact h.gapless q hq

/-! ### A final number that arrives -/

/-- What is smaller than an entry at the front of the sorted deque stands before it. -/
theorem Identified.front_of_precedes (identified : Identified D s) {p : Host} (hp : p ∈ D.hostnames)
    {m : SeqMessage} (final : m ∈ s.finals) {front back : List PendingMsg} {x : PendingMsg}
    (split : s.sortedAt D p m = front ++ x :: back) (deliverable : x.deliverable = true)
    (allDeliverable : ∀ e ∈ front, e.deliverable = true) {id : MsgIdentifier}
    (before : s.Precedes id x.ident) :
    (∃ d ∈ s.delivered p, d.ident = id) ∨ ∃ e ∈ front, e.ident = id := by
  have receiver := identified.receiver p hp
  have xmem : x ∈ s.sortedAt D p m := by rw [split]; simp
  obtain ⟨f, hf, g, hg, rfl, gx, less⟩ := before
  obtain ⟨g', hg', g'x, seq, proposer⟩ := (receiver.sortedAt final xmem).2.1 deliverable
  rw [identified.finalUnique hg hg' (gx.trans g'x.symm), finalKey_lt_iff, seq, proposer] at less
  -- an entry of the message that is not behind `x` is in front of it
  have place : ∀ e ∈ s.sortedAt D p m, e.ident = f.ident → PendingMsg.lt e x = true →
      ∃ e ∈ front, e.ident = f.ident :=
    fun e mem same lt => ⟨e, HoldBackQueue.mem_front_of_lt split mem lt, same⟩
  have marked : ∀ e ∈ s.sortedAt D p m, e.ident = f.ident → e.deliverable = true →
      ∃ e ∈ front, e.ident = f.ident := by
    intro e mem same settled
    obtain ⟨f', hf', f'e, seq', proposer'⟩ := (receiver.sortedAt final mem).2.1 settled
    rw [identified.finalUnique hf hf' (same.symm.trans f'e.symm), seq', proposer'] at less
    refine place e mem same ((PendingMsg.keyedBy_key e x).mpr ?_)
    rw [PendingMsg.key, PendingMsg.key, settled, deliverable, Prod.Lex.lt_iff]
    simpa [Prod.Lex.lt_iff] using less
  by_cases settled : s.Settled p f.ident
  · rcases settled with out | ⟨e, he, same, deliverableE⟩
    · exact Or.inl out
    · obtain ⟨e', mem, same', deliverable'⟩ :=
        HoldBackQueue.deliverable_sortedDeque D.sort m he deliverableE
      exact Or.inr (marked e' mem (same'.trans same) deliverable')
  · obtain ⟨e, he, same, undeliverable, le⟩ := identified.proposal_le_final hf hp settled
    by_cases this : e.ident = m.ident
    · obtain ⟨_, e', mem, same', deliverable'⟩ :=
        HoldBackQueue.marked_of_mem D.sort he this
      exact Or.inr (marked e' mem (same'.trans (this.symm.trans same)) deliverable')
    · -- an undeliverable entry with a smaller number would keep `x` back
      have mem : e ∈ s.sortedAt D p m := HoldBackQueue.mem_sortedDeque_of_ne he this
      have below : e.finalSeqId ≤ x.finalSeqId := by
        rw [UInt32.le_iff_toNat_le] at le ⊢
        rcases less with lt | ⟨eq, _⟩ <;> omega
      have inFront := HoldBackQueue.mem_front_of_lt split mem
        (PendingMsg.lt_of_undeliverable below undeliverable deliverable)
      rw [allDeliverable e inFront] at undeliverable
      cases undeliverable

/-- Where the counter is once a final number has been handled. -/
theorem latestSeqId_finishing (s : System Host) (D : Deployment Host) (p src : Host)
    (m : SeqMessage) (q : Host) :
    (((s.commit p (s.finishing D p src m)).service q).latestSeqId).toNat =
      if q = p ∧ ((s.service p).holdBackQueue.markDeliverable D.sort m).marked = true then
        max (s.service q).latestSeqId.toNat m.finalSeq.toNat
      else (s.service q).latestSeqId.toNat := by
  by_cases same : q = p
  · subst same
    simp only [commit_service_self, finishing, MulticastService.finish, true_and]
    split
    · rw [UInt32.max_def]
      split
      · rename_i le
        rw [UInt32.le_iff_toNat_le] at le
        omega
      · rename_i notLe
        rw [UInt32.le_iff_toNat_le] at notLe
        omega
    · rfl
  · simp [commit_service_of_ne same, same]

theorem Proposals.finish (h : Proposals D s) {p src : Host} {m : SeqMessage} :
    Proposals D (s.commit p (s.finishing D p src m)) := by
  have log : ∀ q id a, (s.commit p (s.finishing D p src m)).Accepted q id a ↔
      s.Accepted q id a := by
    intro q id a
    simp [Accepted, finishing]
  constructor
  · intro q hq id a accepted
    have before := h.proposed q hq id a ((log q id a).mp accepted)
    rw [latestSeqId_finishing]
    split <;> omega
  · intro q hq id id' a left right
    exact h.distinct q hq id id' a ((log q id a).mp left) ((log q id' a).mp right)

theorem Sequenced.finish (h : Sequenced D s) (identified : Identified D s) {p src : Host}
    {m : SeqMessage} (hp : p ∈ D.hostnames) (final : m ∈ s.finals) :
    Sequenced D (s.commit p (s.finishing D p src m)) := by
  set t := s.commit p (s.finishing D p src m) with ht
  have log : t.accepted = s.accepted := by simp [ht, finishing]
  have finals : t.finals = s.finals := by simp [ht, finishing]
  have receiver := identified.receiver p hp
  have latest := latestSeqId_finishing s D p src m
  rw [← ht] at latest
  have advance : ∀ q, (s.service q).latestSeqId.toNat ≤ (t.service q).latestSeqId.toNat := by
    intro q
    rw [latest]
    split <;> omega
  have precedes : t.Precedes = s.Precedes := by
    funext id id'
    rw [Precedes, Precedes, finals]
  refine ⟨h.toProposals.finish, fun q hq f hf settled => ?_, fun q hq => ?_,
    fun q hq d hd f hf eq e he undeliverable => ?_, fun q hq => ?_⟩
  · rw [finals] at hf
    rcases settled_of_settled_finishing settled with old | ⟨rfl, same, marked⟩
    · exact le_trans (h.settled q hq f hf old) (advance q)
    · rw [latest, if_pos ⟨rfl, marked⟩, identified.finalUnique hf final same]
      omega
  · obtain ⟨r, hr, _, accepted⟩ := (identified.finalSound m final).chosen
    have bound := le_trans (h.proposed r hr _ _ accepted) (h.small r hr)
    have small := h.small q hq
    rw [latest, log]
    split <;> omega
  · rw [finals] at hf
    by_cases here : q = p ∧ m.ident ∈ (s.service p).holdBackQueue.pendingMsgSet
    · obtain ⟨rfl, pending⟩ := here
      obtain ⟨deque, delivered, _⟩ := queue_finishing_of_mem D src pending
      rw [← ht] at deque delivered
      rw [deque] at he
      rw [delivered] at hd
      have emem : e ∈ s.sortedAt D q m := (List.dropWhile_suffix _).subset he
      rcases List.mem_append.mp hd with old | new
      · exact h.ahead q hq d old f hf eq e
          ((receiver.sortedAt final emem).2.2 undeliverable) undeliverable
      · obtain ⟨x, mem, rfl⟩ := List.mem_map.mp new
        have deliverable : x.deliverable = true := List.mem_takeWhile_imp mem
        obtain ⟨g, hg, gx, seq, _⟩ :=
          (receiver.sortedAt final ((List.takeWhile_prefix _).subset mem)).2.1 deliverable
        rw [identified.finalUnique hf hg (eq.trans gx.symm), seq]
        by_contra notLess
        -- otherwise `e` would stand in front of `x`, among the delivered entries
        obtain ⟨front, back, split⟩ := List.append_of_mem mem
        have whole : s.sortedAt D q m =
            front ++ x :: (back ++ (s.sortedAt D q m).dropWhile (·.deliverable)) := by
          rw [← List.cons_append, ← List.append_assoc, ← split,
            List.takeWhile_append_dropWhile]
        have inFront := HoldBackQueue.mem_front_of_lt whole emem
          (PendingMsg.lt_of_undeliverable (UInt32.not_lt.mp notLess) undeliverable deliverable)
        have inTake : e ∈ (s.sortedAt D q m).takeWhile (·.deliverable) := by
          rw [split]
          exact List.mem_append_left _ inFront
        rw [List.mem_takeWhile_imp inTake] at undeliverable
        cases undeliverable
    · have same : (t.service q).holdBackQueue = (s.service q).holdBackQueue ∧
          t.delivered q = s.delivered q := by
        by_cases this : q = p
        · subst this
          exact queue_finishing_of_notMem D src fun pending => here ⟨rfl, pending⟩
        · exact ⟨by rw [ht, commit_service_of_ne this], by rw [ht, commit_delivered_of_ne this]⟩
      rw [same.1] at he
      rw [same.2] at hd
      exact h.ahead q hq d hd f hf eq e he undeliverable
  · rw [precedes, deliveredIdents]
    by_cases here : q = p ∧ m.ident ∈ (s.service p).holdBackQueue.pendingMsgSet
    · obtain ⟨rfl, pending⟩ := here
      obtain ⟨_, delivered, _⟩ := queue_finishing_of_mem D src pending
      rw [← ht] at delivered
      rw [delivered, List.map_append]
      refine (h.gapless q hq).append fun front a back split id before => ?_
      rw [List.map_map] at split
      obtain ⟨frontE, restE, parts, rfl, rest⟩ := List.map_eq_append_iff.mp split
      obtain ⟨x, backE, rfl, rfl, _⟩ := List.map_eq_cons_iff.mp rest
      have inTake : ∀ y ∈ frontE ++ x :: backE, y.deliverable = true := by
        rw [← parts]
        exact fun y hy => List.mem_takeWhile_imp hy
      have whole : s.sortedAt D q m =
          frontE ++ x :: (backE ++ (s.sortedAt D q m).dropWhile (·.deliverable)) := by
        rw [← List.cons_append, ← List.append_assoc, ← parts, List.takeWhile_append_dropWhile]
      rw [List.mem_append]
      rcases identified.front_of_precedes hq final whole (inTake x (by simp))
        (fun y hy => inTake y (by simp [hy])) before with ⟨d, hd, same⟩ | ⟨y, hy, same⟩
      · exact Or.inl (List.mem_map.mpr ⟨d, hd, same⟩)
      · exact Or.inr (List.mem_map.mpr ⟨y, hy, same⟩)
    · have same : t.delivered q = s.delivered q := by
        by_cases this : q = p
        · subst this
          exact (queue_finishing_of_notMem D src fun pending => here ⟨rfl, pending⟩).2
        · rw [ht, commit_delivered_of_ne this]
      rw [same]
      exact h.gapless q hq

/-! ## The result -/

theorem Sequenced.step (h : Sequenced D s) (identified : Identified D s)
    (identified' : Identified D s') {incoming : Option (Host × Packet)}
    (progress : Progress D incoming s s')
    (bound : s'.accepted.length < UInt32.size) : Sequenced D s' := by
  cases progress with
  | quiet same finals => exact h.quiet same finals
  | accept _ hp _ eq =>
      subst eq
      exact h.accept hp bound
  | choose same finals => exact h.choose identified.toSound identified' same finals
  | finish _ hp final eq =>
      subst eq
      exact h.finish identified hp final

theorem sequenced_of_reachable (reachable : s.Reachable D) (few : s.FewMulticasts D)
    (bound : s.accepted.length < UInt32.size) : Sequenced D s := by
  induction reachable with
  | start => exact sequenced_initial
  | next before _ taken ih =>
      have fewer := few.of_step taken
      obtain ⟨t, identifiedT, same, finals, progress⟩ :=
        (identified_of_reachable before fewer).progress taken
      have shorter := progress.accepted_length
      rw [same.accepted] at shorter
      have identified' := identified_of_reachable (before.next trivial taken) few
      exact ((ih fewer (by omega)).quiet same finals).step identifiedT identified' progress bound

/-- Two messages never get the same number from the same proposer. -/
theorem Proposals.ident_of_number (h : Proposals D s) (sound : Sound D s) {f g : SeqMessage}
    (hf : f ∈ s.finals) (hg : g ∈ s.finals) (seq : f.finalSeq = g.finalSeq)
    (proposer : f.finalSeqProposer = g.finalSeqProposer) : f.ident = g.ident := by
  obtain ⟨r, hr, id, accepted⟩ := (sound.finalSound f hf).chosen
  obtain ⟨r', hr', id', accepted'⟩ := (sound.finalSound g hg).chosen
  have host : r = r' := Hostfile.processIdentifier_inj hr hr' (id.trans (proposer.trans id'.symm))
  subst host
  rw [← seq] at accepted'
  exact h.distinct r hr _ _ _ accepted accepted'

/-- Two final numbers that no key separates are numbers of the same message. -/
theorem Proposals.ident_of_finalKey (h : Proposals D s) (sound : Sound D s) {f g : SeqMessage}
    (hf : f ∈ s.finals) (hg : g ∈ s.finals) (eq : finalKey f = finalKey g) :
    f.ident = g.ident := by
  obtain ⟨seq, proposer⟩ := Prod.mk.injEq .. ▸ congrArg ofLex eq
  exact h.ident_of_number sound hf hg (UInt32.toNat_inj.mp seq) (UInt32.toNat_inj.mp proposer)

/-- **Total order.**  The distinct messages delivered at two hosts, in the order of their
first delivery, are prefixes of one another. -/
theorem first_deliveries_comparable (D : Deployment Host) {s : System Host}
    (reachable : s.Reachable D) (few : s.FewMulticasts D)
    (bound : s.accepted.length < UInt32.size) {p q : Host}
    (hp : p ∈ D.hostnames) (hq : q ∈ D.hostnames) :
    firstOccurrences (s.deliveredIdents p) <+: firstOccurrences (s.deliveredIdents q) ∨
      firstOccurrences (s.deliveredIdents q) <+: firstOccurrences (s.deliveredIdents p) := by
  have identified := identified_of_reachable reachable few
  have order := sequenced_of_reachable reachable few bound
  have finalOf : ∀ id ∈ s.deliveredIdents p ++ s.deliveredIdents q,
      ∃ f ∈ s.finals, f.ident = id := by
    intro id mem
    rcases List.mem_append.mp mem with left | right
    · obtain ⟨m, hm, rfl⟩ := List.mem_map.mp left
      exact ((identified.receiver p hp).delivered m hm).2
    · obtain ⟨m, hm, rfl⟩ := List.mem_map.mp right
      exact ((identified.receiver q hq).delivered m hm).2
  refine (order.gapless p hp).comparable identified.precedes_asymm (order.gapless q hq) ?_
  intro id hid id' hid'
  obtain ⟨f, hf, rfl⟩ := finalOf id hid
  obtain ⟨g, hg, rfl⟩ := finalOf id' hid'
  rcases lt_trichotomy (finalKey f) (finalKey g) with less | eq | more
  · exact Or.inl ⟨f, hf, g, hg, rfl, rfl, less⟩
  · exact Or.inr (Or.inl (order.ident_of_finalKey identified.toSound hf hg eq))
  · exact Or.inr (Or.inr ⟨g, hg, f, hf, rfl, rfl, more⟩)

end System

/-- Both hosts multicast.  In the end the first one has delivered both messages, the second
one only the message that comes first. -/
def crossing : List (Event Bool) :=
  [.multicast false 10, .multicast true 20,
    .sendData false 0 false, .sendData false 0 true, .sendData true 0 true, .sendData true 0 false,
    .receive false false 0 false, .receive true false 0 false, .receive false true 0 false,
    .receive true true 0 false,
    -- the answers of both hosts to both messages
    .receive false false 0 false, .receive true false 0 false,
    .receive true true 0 false, .receive false true 0 false,
    .sendSeq false 0 false, .sendSeq true 0 false, .sendSeq false 0 true,
    .receive false false 0 false, .receive true false 0 false, .receive false true 0 false]

/-- The state in which `crossing` ends. -/
def crossed : System Bool :=
  (replay (System.step twoHosts) (System.initial Bool) crossing).get (by decide +kernel)

theorem crossed_reachable : crossed.Reachable twoHosts :=
  Reach.of_isSome (allowedAlong_always _ _) _

theorem first_deliveries_comparable_crossed :
    (crossed.deliveredIdents false = [⟨1, 1⟩, ⟨1, 2⟩] ∧ crossed.deliveredIdents true = [⟨1, 1⟩]) ∧
      (firstOccurrences (crossed.deliveredIdents false) <+:
          firstOccurrences (crossed.deliveredIdents true) ∨
        firstOccurrences (crossed.deliveredIdents true) <+:
          firstOccurrences (crossed.deliveredIdents false)) :=
  ⟨by decide +kernel, System.first_deliveries_comparable twoHosts crossed_reachable
    (by decide +kernel) (by decide +kernel) (by decide) (by decide)⟩

/-- The second host has delivered both messages.  At the first one its own message is not
deliverable yet, and the other one waits behind it. -/
def crossingOnce : List (Event Bool) :=
  [.multicast false 10, .multicast true 20, .sendData false 0 false, .sendData false 0 true,
    .receive false false 0 false, .receive false true 0 false,
    .sendData true 0 true, .sendData true 0 false,
    .receive true true 0 false, .receive false false 0 false, .receive true false 0 false,
    .receive true false 0 false, .receive true true 0 false, .receive false true 0 false,
    .sendSeq false 0 true, .receive false true 0 false, .sendSeq true 0 true,
    .receive true true 0 false, .sendSeq true 0 false, .receive true false 0 false,
    .receive true false 0 false]

/-- A second message of the first host with the identifier of the first.  One answer completes its
proposals, since the map still holds those for the first message; the final number is larger than
that of the other host's message, and marks the first message at the first host. -/
def crossingAgain : List (Event Bool) :=
  [.multicast false 8, .sendData false 0 true, .receive false true 1 false,
    .receive true false 0 false, .sendSeq false 1 false, .receive false false 0 false]

def crossedOnce : System Bool :=
  (replay (System.step twoHosts) (System.initial Bool) crossingOnce).get (by decide +kernel)

def crossedAgain : System Bool :=
  (replay (System.step twoHosts) (crossedOnce.rewound false) crossingAgain).get (by decide +kernel)

/-- Without a bound on the calls of `multicast`, the order can differ. -/
theorem first_deliveries_incomparable :
    ¬ ∀ s : System Bool, s.Reachable twoHosts → s.accepted.length < UInt32.size →
      ∀ p ∈ twoHosts.hostnames, ∀ q ∈ twoHosts.hostnames,
        firstOccurrences (s.deliveredIdents p) <+: firstOccurrences (s.deliveredIdents q) ∨
          firstOccurrences (s.deliveredIdents q) <+: firstOccurrences (s.deliveredIdents p) := by
  intro comparable
  have again : Reach (System.step twoHosts)
      (fun t e => Always t e ∧ t.AnswersOnly false (crossedOnce.service false).msgId e)
      (crossedOnce.rewound false) crossedAgain := Reach.of_isSome (by decide +kernel) _
  obtain ⟨s, held, reachable, padded⟩ := System.exists_reach_again (fun _ _ => trivial)
    (fun _ _ => trivial) (Reach.of_isSome (allowedAlong_always _ _) _) (by decide +kernel)
    (by decide +kernel) again
  have few : s.accepted.length < UInt32.size := by
    rw [padded.accepted]
    decide +kernel
  have order := comparable s reachable few false (by decide +kernel) true (by decide +kernel)
  unfold System.deliveredIdents at order
  rw [padded.delivered] at order
  exact absurd order (by decide +kernel)

end GroupComm.Lab1
