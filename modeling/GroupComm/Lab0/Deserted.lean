import GroupComm.Lab0.Drained

/-!
# Hosts that are left for good

A host is stranded when its listener has left without an `Ack` of some peer (`Abandons`), or when a
peer answers it no more and none of that peer's `Ack`s comes through (`Deserts`).  No step mends it,
and nobody who is stranded gets READY.  It takes a step that leaves early, or one that loses the
last `Ack` (`Orderly.stranded`).
-/

namespace GroupComm.Lab0

open Transition

namespace ProcessCases

variable {F : Hostfile} {p q : Hostname} {pr next : Process} {e : Event}

theorem staysClosed (h : ProcessCases F p pr e next) (closed : q ∈ pr.closed) :
    q ∈ next.closed := by
  cases h with
  | close => exact Finset.mem_insert_of_mem closed
  | _ => exact closed

theorem leaves (h : ProcessCases F p pr (.receive p) next) (place : pr.receive = .test)
    (heard : pr.validSenders = ∅) (answered : pr.aliveMessageReceivers = ∅) :
    next.receive = .left := by
  cases h with
  | other apart => exact absurd rfl apart
  | bind place' | signal place' | remove place' =>
      rw [place] at place'
      cases place'
  | listen _ waits => exact absurd answered (waits.resolve_left (not_not.mpr heard))
  | leave => rfl

end ProcessCases

namespace System

variable {F : Hostfile} {s s' : System} {p q : Hostname} {e : Event}

/-- What is neither received nor in flight stays so. -/
theorem undelivered_of_step (taken : s.step F e = some s') {a : ℕ} (less : a < s.sent.length)
    (here : s'.HasReceived q a ∨ a ∈ s'.inFlight) : s.HasReceived q a ∨ a ∈ s.inFlight := by
  have post {closed : Bool} {datagram : Datagram}
      (here : (s.post closed datagram).HasReceived q a ∨ a ∈ (s.post closed datagram).inFlight) :
      s.HasReceived q a ∨ a ∈ s.inFlight := by
    unfold System.post at here
    split at here
    · exact here
    · refine here.imp_right fun mem => ?_
      rcases List.mem_append.mp mem with old | new
      · exact old
      · exact absurd (List.mem_singleton.mp new) (Nat.ne_of_lt less)
  cases stepCases_of_step taken with
  | answer => exact post here
  | sent => exact post here
  | take running place found =>
      rcases here with received | mem
      · rcases List.mem_append.mp received with old | new
        · exact Or.inl old
        · cases List.mem_singleton.mp new
          exact Or.inr (List.mem_of_getElem? found)
      · refine Or.inr ?_
        change a ∈ if _ then _ else _ at mem
        split at mem
        · exact mem
        · exact List.mem_of_mem_eraseIdx mem
  | lose => exact here.imp_right List.mem_of_mem_eraseIdx
  | _ => exact here

/-- Only an answer over an open sender brings a new `Ack`. -/
theorem survives_of_step (taken : s.step F e = some s')
    (survives : s'.Survives p q) : s.Survives p q ∨
      ∃ n, (s.processes p).receive = .sendingAckMessages q n ∧ q ∉ (s.processes p).closed := by
  obtain ⟨a, mem, here⟩ := survives
  obtain ⟨n, sent⟩ := mem_acks.mp mem
  have old (sent : s.HasSent a p q (.ack n)) : s.Survives p q :=
    ⟨a, mem_acks.mpr ⟨n, sent⟩,
      undelivered_of_step taken (List.getElem?_eq_some_iff.mp sent).1 here⟩
  cases stepCases_of_step taken with
  | @answer p' resolved sender answers pr running place udpSender =>
      obtain ⟨udpSenders, rfl⟩ := getUDPSender_eq udpSender
      by_cases closed : sender ∈ (s.processes p').closed
      · refine Or.inl (old ?_)
        change (s.post (decide (sender ∈ (s.processes p').closed)) _).HasSent _ _ _ _ at sent
        rw [decide_eq_true closed] at sent
        exact sent
      · rcases hasSent_post sent with sent | new
        · exact Or.inl (old sent)
        · cases new
          exact Or.inr ⟨_, place, closed⟩
  | sent =>
      rcases hasSent_post sent with sent | new
      · exact Or.inl (old sent)
      · cases new
  | _ => exact Or.inl (old sent)

/-- Host `p` answers `q` no more, and none of its `Ack`s comes through to `q`. -/
structure Deserts (F : Hostfile) (s : System) (p q : Hostname) : Prop where
  host : p ∈ F.hostnames
  peer : q ∈ F.peerHostnames p
  lost : ¬ s.Survives p q
  silent : (s.processes p).receive = .left ∨ q ∈ (s.processes p).closed

theorem Deserts.next (h : Deserts F s p q) (taken : s.step F e = some s') :
    Deserts F s' p q := by
  obtain ⟨host, peer, lost, silent⟩ := h
  refine ⟨host, peer, fun survives => ?_, ?_⟩
  · rcases survives_of_step taken survives with old | ⟨n, place, isOpen⟩
    · exact lost old
    · rcases silent with left | closed
      · rw [left] at place
        cases place
      · exact isOpen closed
  · rcases silent with left | closed
    · rcases receive_of_step taken p with same | ⟨away, _⟩
      · exact Or.inl (same.trans left)
      · exact absurd left away
    · exact Or.inr ((processCases_of_step taken p).staysClosed closed)

/-- Some host is never to get READY. -/
def Stranded (F : Hostfile) (s : System) : Prop :=
  (∃ p, Abandons F s p) ∨ ∃ p q, Deserts F s p q

/-- Who is stranded stays so. -/
theorem Stranded.next (h : Stranded F s) (known : ReceivesSent s)
    (taken : s.step F e = some s') : Stranded F s' := by
  rcases h with ⟨p, abandons⟩ | ⟨p, q, deserts⟩
  · exact Or.inl ⟨p, abandons.step known taken⟩
  · exact Or.inr ⟨p, q, deserts.next taken⟩

section Dotless

variable (dotless : ∀ h ∈ F.hostnames, '.' ∉ h)
include dotless

/-- A host is ready only with an `Ack` of every peer. -/
theorem Orderly.hasAck_of_ready (h : Orderly F s) (ready : (s.processes p).ready = true)
    (peer : q ∈ F.peerHostnames p) : s.HasAck p q := by
  obtain ⟨_, done⟩ := h.sound.finished p ready
  obtain ⟨none, filled, _⟩ := h.stops p ((h.sound.sends p).stopped (Or.inl done))
  have gone : q ∉ (s.processes p).aliveMessageReceivers := by
    rw [none]
    exact Finset.notMem_empty q
  rcases (h.sound.sends p).answered q peer gone with ⟨rest, place, _⟩ | answered
  · exact absurd place (filled rest)
  · obtain ⟨n, a, _, _, ack, received⟩ := h.sound.answered_by (dotless_peers dotless p) answered
    exact ⟨a, n, ack, received⟩

theorem Orderly.not_stranded (h : Orderly F s)
    (ready : ∀ p ∈ F.hostnames, (s.processes p).ready = true) : ¬ Stranded F s := by
  rintro (⟨p, left, q, peer, missed⟩ | ⟨p, q, deserts⟩)
  · have host := h.hosts p (by rw [left]; exact fun away => by cases away)
    obtain ⟨a, n, ack, received⟩ := h.hasAck_of_ready dotless (ready p host) peer
    exact missed a n ack received
  · obtain ⟨known, other⟩ := Hostfile.mem_peerHostnames.mp deserts.peer
    obtain ⟨a, n, ack, received⟩ := h.hasAck_of_ready dotless (ready q known)
      (Hostfile.mem_peerHostnames.mpr ⟨deserts.host, other.symm⟩)
    exact deserts.lost ⟨a, mem_acks.mpr ⟨n, ack⟩, Or.inl received⟩

/-- An answer that nobody gets, or a step after which nobody gets any, deserts a peer. -/
theorem Orderly.deserts (h : Orderly F s) (mute : ¬ s.Answering F e)
    (taken : s.step F e = some s') : ∃ p q, Deserts F s' p q := by
  cases e with
  | sendingAckMessages p resolved =>
      have mute : ¬ s.AnswersOpen p (s.processes p).receive := mute
      cases place : (s.processes p).receive with
      | sendingAckMessages sender answers =>
          rw [place] at mute
          obtain ⟨closed, none⟩ := not_or.mp mute
          have closed := not_not.mp closed
          obtain ⟨src, alive, _, name⟩ := (h.sound.listens p).answering sender answers place
          obtain ⟨known, peer⟩ := h.sound.toPeers answers src p alive
          obtain ⟨host, other⟩ := Hostfile.mem_peerHostnames.mp peer
          rw [Hostfile.senderName_eq (dotless src known)] at name
          subst name
          refine ⟨p, src, host, Hostfile.mem_peerHostnames.mpr ⟨known, other.symm⟩,
            fun survives => ?_, Or.inr ((processCases_of_step taken p).staysClosed closed)⟩
          rcases survives_of_step taken survives with ⟨a, mem, _⟩ | ⟨n, place', isOpen⟩
          · rw [not_not.mp none] at mem
            cases mem
          · rw [place] at place'
            cases place'
            exact isOpen closed
      | _ =>
          rw [place] at mute
          exact absurd trivial mute
  | receive p =>
      obtain ⟨leaves, mute⟩ := Classical.not_imp.mp mute
      have left := (processCases_of_step taken p).leaves leaves.1 leaves.2.1 leaves.2.2
      have host := h.hosts p (by rw [leaves.1]; exact fun away => by cases away)
      by_contra none
      refine mute fun q peer _ => ?_
      by_contra lost
      refine none ⟨p, q, host, peer, fun survives => ?_, Or.inl left⟩
      rcases survives_of_step taken survives with old | ⟨n, place, _⟩
      · exact lost old
      · rw [leaves.1] at place
        cases place
  | lose i =>
      by_contra none
      refine mute fun number found datagram content => ?_
      obtain ⟨src, dst, message⟩ := datagram
      cases message with
      | alive => trivial
      | ack n =>
          intro left
          by_contra lost
          have ack : s.HasSent number src dst (.ack n) := content
          have host := (h.sound.sender_of_ack dotless ack).1
          obtain ⟨asker, alive, _, name⟩ := h.sound.answers number src dst n ack
          obtain ⟨known, peer⟩ := h.sound.toPeers n asker src alive
          rw [Hostfile.senderName_eq (dotless asker known)] at name
          subst name
          have other := (Hostfile.mem_peerHostnames.mp peer).2
          refine none ⟨src, asker, host, Hostfile.mem_peerHostnames.mpr ⟨known, other.symm⟩, ?_, ?_⟩
          · cases stepCases_of_step taken with
            | lose => exact lost
          · cases stepCases_of_step taken with
            | lose => exact Or.inl left
  | _ => exact absurd trivial mute

theorem Orderly.stranded (h : Orderly F s)
    (improper : ¬ (s.FillsFirst e ∧ s.Answering F e)) (taken : s.step F e = some s') :
    Stranded F s' := by
  rcases Classical.not_and_iff_not_or_not.mp improper with early | mute
  · exact Or.inl (abandons_of_step h.sound early taken)
  · exact Or.inr (h.deserts dotless mute taken)

end Dotless

end System

end GroupComm.Lab0
