import GroupComm.Lab1.AckCache
import GroupComm.Lab1.CausalOrder

/-!
# Nobody delivers a message alone

A final number needs a proposal of every host, so a message is delivered only once every host has
accepted it, and a host keeps what it has accepted until it delivers it: under any network a
message that is delivered somewhere is delivered or still held at every host, as long as identifiers
name one message only (`delivered_or_held`).

The price is that the multicast waits for everybody.  As long as no datagram reaches some host
(`CutOff`), because it has stopped, has crashed or the network loses them all, nothing that it has
not accepted before is delivered anywhere (`not_delivered_of_cutOff`).
-/

namespace GroupComm.Lab1

open Transition

namespace System

variable {Host : Type} [DecidableEq Host] {D : Deployment Host} {s s' : System Host}

/-! ## What has been delivered somewhere -/

/-- What a host has accepted it has delivered, or it waits in the deque. -/
theorem Identified.delivered_or_held_of_accepted (h : Identified D s) {q : Host}
    (hq : q ∈ D.hostnames) {m : DataMessage} (genuine : s.Genuine D m) {a : UInt32}
    (accepted : s.Accepted q m.ident a) :
    m ∈ s.delivered q ∨ ∃ e ∈ (s.service q).holdBackQueue.deque, e.dataMsg = m := by
  have receiver := h.receiver q hq
  have logged : m.ident ∈ s.acceptedIdents q := by
    refine List.mem_map.mpr ⟨⟨q, m.ident, a⟩, List.mem_filter.mpr ⟨accepted, ?_⟩, rfl⟩
    exact decide_eq_true rfl
  rcases List.mem_append.mp (receiver.balance.mem_iff.mpr logged) with delivered | held
  · obtain ⟨d, mem, same⟩ := List.mem_map.mp delivered
    rw [← h.multicast_unique (receiver.delivered d mem).1 genuine same]
    exact Or.inl mem
  · obtain ⟨e, mem, same⟩ := List.mem_map.mp held
    exact Or.inr ⟨e, mem, h.multicast_unique (receiver.genuine e mem) genuine same⟩

/-- Whoever delivers a message, every host has accepted it. -/
theorem Sound.accepted_of_delivered (sound : Sound D s) {p : Host} (hp : p ∈ D.hostnames)
    {id : MsgIdentifier} (delivered : id ∈ s.deliveredIdents p) {q : Host}
    (hq : q ∈ D.hostnames) : ∃ a, s.Accepted q id a := by
  obtain ⟨f, final, rfl⟩ := sound.final_of_known (Or.inr ⟨p, hp, delivered⟩)
  obtain ⟨a, accepted, _⟩ := sound.accepted_of_final final hq
  exact ⟨a, accepted⟩

/-- **Uniformity.**  Under any network, what one host has delivered every host has delivered or
holds, as long as no identifier has come back. -/
theorem delivered_or_held (D : Deployment Host) {s : System Host} (reachable : s.Reachable D)
    (few : s.FewMulticasts D) {p q : Host} (hp : p ∈ D.hostnames) (hq : q ∈ D.hostnames)
    {m : DataMessage} (delivered : m ∈ s.delivered p) :
    m ∈ s.delivered q ∨ ∃ e ∈ (s.service q).holdBackQueue.deque, e.dataMsg = m := by
  have identified := identified_of_reachable reachable few
  have genuine := ((identified.receiver p hp).delivered m delivered).1
  obtain ⟨a, accepted⟩ :=
    identified.toSound.accepted_of_delivered hp (List.mem_map_of_mem delivered) hq
  exact identified.delivered_or_held_of_accepted hq genuine accepted

/-! ## A host that nothing reaches -/

/-- No datagram is handed to `q`. -/
def CutOff (q : Host) (s : System Host) (e : Event Host) : Prop :=
  ∀ arrival ∈ s.incoming e, arrival.1 ≠ q

instance decidableCutOff (q : Host) (s : System Host) (e : Event Host) :
    Decidable (s.CutOff q e) :=
  inferInstanceAs (Decidable (∀ arrival ∈ s.incoming e, arrival.1 ≠ q))

/-- Nothing reaches a process that has stopped. -/
theorem cutOff_of_stopped {q : Host} (stopped : s.stopped q = true) {e : Event Host}
    (taken : s.step D e = some s') : s.CutOff q e ∧ s'.stopped q = true := by
  constructor
  · rintro ⟨q, packet⟩ into rfl
    obtain ⟨_, running⟩ := running_of_step taken into
    rw [stopped] at running
    cases running
  · cases e with
    | multicast p data =>
        obtain ⟨_, rfl⟩ := step_multicast taken
        exact stopped
    | sendData p i recipient =>
        obtain ⟨_, _, _, _, rfl⟩ := step_sendData taken
        exact stopped
    | sendSeq p i recipient =>
        obtain ⟨_, _, _, _, rfl⟩ := step_sendSeq taken
        exact stopped
    | receive src dst i copy =>
        obtain ⟨_, packet, _, ⟨o, _, rfl⟩ | ⟨_, rfl⟩⟩ := step_receive taken
        · exact stopped
        · change Function.update s.stopped dst true q = true
          rw [Function.update_apply, stopped, ite_self]
    | lose src dst i =>
        rw [step_lose taken]
        exact stopped

/-- The runs from a state in which `q` has stopped. -/
theorem reach_cutOff_of_stopped {q : Host} (stopped : s.stopped q = true)
    (run : Reach (step D) Always s s') : Reach (step D) (CutOff q) s s' := by
  have both : Reach (step D) (CutOff q) s s' ∧ s'.stopped q = true := by
    induction run with
    | start => exact ⟨.start, stopped⟩
    | next _ _ taken ih =>
        obtain ⟨cutOff, still⟩ := cutOff_of_stopped ih.2 taken
        exact ⟨ih.1.next cutOff taken, still⟩
  exact both.1

/-- A host that nothing reaches accepts nothing. -/
theorem Progress.accepted_of_cutOff {q : Host} {handled : Option (Host × Packet)}
    (progress : Progress D handled s s') (cutOff : ∀ arrival ∈ handled, arrival.1 ≠ q)
    {id : MsgIdentifier} {a : UInt32} (accepted : s'.Accepted q id a) : s.Accepted q id a := by
  cases progress with
  | quiet same _ =>
      rw [Accepted, same.accepted] at accepted
      exact accepted
  | accept eq _ _ eq' =>
      subst eq'
      rcases accepted_acceptance.mp accepted with old | ⟨rfl, _, _⟩
      · exact old
      · exact (cutOff _ eq rfl).elim
  | choose same _ =>
      rw [Accepted, same.accepted] at accepted
      exact accepted
  | finish _ _ _ eq' =>
      subst eq'
      rw [Accepted, commit_accepted] at accepted
      change _ ∈ s.accepted ++ [] at accepted
      rwa [List.append_nil] at accepted

theorem accepted_of_cutOff (reachable : s.Reachable D) {q : Host}
    (run : Reach (step D) (CutOff q) s s') {id : MsgIdentifier} {a : UInt32}
    (accepted : s'.Accepted q id a) : s.Accepted q id a := by
  induction run with
  | start => exact accepted
  | next before cutOff taken ih =>
      have sound := sound_of_reachable (reachable.trans before.always)
      obtain ⟨t, _, same, _, progress⟩ := sound.progress taken
      have earlier := progress.accepted_of_cutOff cutOff accepted
      rw [Accepted, same.accepted] at earlier
      exact ih earlier

/-- **Blocking.**  What `q` has not accepted is delivered nowhere as long as nothing reaches
`q`, and in no run at all once `q` has stopped. -/
theorem not_delivered_of_cutOff (D : Deployment Host) {s s' : System Host}
    (reachable : s.Reachable D) {q : Host} (hq : q ∈ D.hostnames) {id : MsgIdentifier}
    (unseen : ∀ a, ¬ s.Accepted q id a)
    (alone : Reach (step D) (CutOff q) s s' ∨
      s.stopped q = true ∧ Reach (step D) Always s s') {p : Host}
    (hp : p ∈ D.hostnames) : id ∉ s'.deliveredIdents p := by
  have run : Reach (step D) (CutOff q) s s' :=
    alone.elim (fun run => run) fun ⟨stopped, run⟩ => reach_cutOff_of_stopped stopped run
  intro delivered
  have sound := sound_of_reachable (reachable.trans run.always)
  obtain ⟨a, accepted⟩ := sound.accepted_of_delivered hp delivered hq
  exact unseen a (accepted_of_cutOff reachable run accepted)

end System

theorem delivered_or_held_crossed :
    (⟨1, 2, 1, 20⟩ : DataMessage) ∈ crossed.delivered true ∨
      ∃ e ∈ (crossed.service true).holdBackQueue.deque, e.dataMsg = ⟨1, 2, 1, 20⟩ :=
  System.delivered_or_held twoHosts crossed_reachable (by decide +kernel) (p := false) (by decide)
    (by decide) (by decide +kernel)

/-- The first host handles what it is sent, and what the second one is sent is lost. -/
def oneSidedRun : List (Event Bool) :=
  [.multicast false 10, .multicast true 20, .sendData false 0 false, .sendData true 0 false,
    .sendData false 0 true, .receive false false 0 false, .receive true false 0 false,
    .receive false false 0 false, .lose false true 0]

theorem oneSidedRun_through :
    (replay (System.step twoHosts) (System.initial Bool) oneSidedRun).isSome = true := by
  decide +kernel

theorem not_delivered_oneSided : (⟨1, 1⟩ : MsgIdentifier) ∉
    ((replay (System.step twoHosts) (System.initial Bool) oneSidedRun).get
      oneSidedRun_through).deliveredIdents false :=
  System.not_delivered_of_cutOff twoHosts .start (q := true) (by decide)
    (fun _ accepted => List.not_mem_nil accepted)
    (.inl (.of_isSome (by decide +kernel) oneSidedRun_through)) (by decide)

end GroupComm.Lab1
