import GroupComm.Lab1.TotalOrder

/-!
# The order of delivery respects time

A message that is multicast once the final number of another one has been chosen gets a larger
final number: the host whose proposal was chosen has counted on since, and it proposes for the
later message only afterwards (`Follows`).  So every host delivers the later message behind the
earlier one (`causal_order`).  This is so in particular when the earlier message has been
delivered anywhere, be it at the host that multicasts next: what a host multicasts comes after
all that it has delivered, and a host that waits for the delivery of its own messages has them
delivered in the order in which it multicasts them.
-/

namespace GroupComm.Lab1

open Transition PrefixOrder

namespace System

variable {Host : Type} [DecidableEq Host] {D : Deployment Host} {s s' : System Host}

/-- Whatever `r` proposes for the message `id` is above `n`, before and from now on. -/
structure Follows (s : System Host) (n : ℕ) (r : Host) (id : MsgIdentifier) : Prop where
  counter : n ≤ (s.service r).latestSeqId.toNat
  proposals : ∀ a, s.Accepted r id a → n < a.toNat

variable {n : ℕ} {r : Host} {id : MsgIdentifier}

omit [DecidableEq Host] in
theorem Follows.quiet (h : s.Follows n r id) (same : SameQueues s s') : s'.Follows n r id := by
  constructor
  · rw [same.latestSeqId]
    exact h.counter
  · intro a
    rw [Accepted, same.accepted]
    exact h.proposals a

theorem Follows.progress (h : s.Follows n r id) (order : Sequenced D s)
    {handled : Option (Host × Packet)} (progress : Progress D handled s s')
    (bound : s'.accepted.length < UInt32.size) : s'.Follows n r id := by
  cases progress with
  | quiet same _ => exact h.quiet same
  | @accept p src m _ hp _ eq =>
      subst eq
      have noWrap : (s.service p).latestSeqId.toNat + 1 < UInt32.size := by
        have small := order.small p hp
        rw [commit_accepted, List.length_append] at bound
        exact Nat.lt_of_le_of_lt (Nat.succ_le_succ small) bound
      constructor
      · exact Nat.le_trans h.counter (latestSeqId_le_acceptance noWrap r)
      · intro a accepted
        rcases accepted_acceptance.mp accepted with old | ⟨rfl, _, rfl⟩
        · exact h.proposals a old
        · rw [toNat_add_one noWrap]
          exact Nat.lt_succ_of_le h.counter
  | choose same _ => exact h.quiet same
  | @finish p src m _ _ _ eq =>
      subst eq
      constructor
      · refine Nat.le_trans h.counter ?_
        rw [latestSeqId_finishing]
        split
        · exact Nat.le_max_left _ _
        · exact Nat.le_refl _
      · intro a accepted
        rw [Accepted, commit_accepted] at accepted
        change _ ∈ s.accepted ++ [] at accepted
        rw [List.append_nil] at accepted
        exact h.proposals a accepted

/-- Along a run in which the counters do not wrap. -/
theorem Follows.run (reachable : s.Reachable D) (h : s.Follows n r id)
    (run : Reach (step D) Always s s') (few : s'.FewMulticasts D)
    (bound : s'.accepted.length < UInt32.size) : s'.Follows n r id := by
  induction run with
  | start => exact h
  | next before _ taken ih =>
      have earlier := reachable.trans before
      have fewer := few.of_step taken
      obtain ⟨t, _, same, finals, progress⟩ := (sound_of_reachable earlier).progress taken
      have shorter := progress.accepted_length
      rw [same.accepted] at shorter
      have within := Nat.lt_of_le_of_lt shorter bound
      exact ((ih fewer within).quiet same).progress
        ((sequenced_of_reachable earlier fewer within).quiet same finals) progress bound

/-! ## A message that is multicast now -/

/-- The host whose number was chosen for a message follows it with all others. -/
theorem Identified.follows_of_multicast (h : Identified D s) (order : Sequenced D s)
    {f : SeqMessage} (chosen : f ∈ s.finals) {p : Host} {data : UInt32}
    (taken : s.step D (.multicast p data) = some s') (few : s'.FewMulticasts D) :
    ∃ r ∈ D.hostnames, s'.Follows f.finalSeq.toNat r
      ((s.service p).createDataMessage D p data).ident := by
  obtain ⟨r, hr, _, accepted⟩ := (h.finalSound f chosen).chosen
  obtain ⟨⟨hp, _⟩, rfl⟩ := step_multicast taken
  have more : (s.multicasts p).length + 1 < UInt32.size := by simpa using few p hp
  refine ⟨r, hr, ?_, fun a new => (h.not_accepted_next hp more data hr a new).elim⟩
  have counter := order.proposed r hr _ _ accepted
  by_cases same : r = p
  · subst same
    dsimp only
    rw [Function.update_self]
    exact counter
  · dsimp only
    rw [Function.update_of_ne same]
    exact counter

/-- A message that is followed by another one gets the smaller final number. -/
theorem Follows.precedes (sound : Sound D s) (hr : r ∈ D.hostnames) {f : SeqMessage}
    (h : s.Follows f.finalSeq.toNat r id) (chosen : f ∈ s.finals) {g : SeqMessage}
    (later : g ∈ s.finals) (same : g.ident = id) : s.Precedes f.ident id := by
  obtain ⟨a, accepted, le⟩ := sound.accepted_of_final later hr
  rw [same] at accepted
  have less : f.finalSeq.toNat < g.finalSeq.toNat :=
    Nat.lt_of_lt_of_le (h.proposals a accepted) le
  exact ⟨f, chosen, g, later, rfl, same, finalKey_lt_iff.mpr (Or.inl less)⟩

theorem accepted_length_le (reachable : s.Reachable D) (run : Reach (step D) Always s s') :
    s.accepted.length ≤ s'.accepted.length := by
  induction run with
  | start => exact Nat.le_refl _
  | next before _ taken ih =>
      obtain ⟨t, _, same, _, progress⟩ :=
        (sound_of_reachable (reachable.trans before)).progress taken
      have longer := progress.accepted_length
      rw [same.accepted] at longer
      exact Nat.le_trans ih longer

/-- Final numbers stay. -/
theorem finals_of_reach (reachable : s.Reachable D) (run : Reach (step D) Always s s')
    {f : SeqMessage} (chosen : f ∈ s.finals) : f ∈ s'.finals := by
  induction run with
  | start => exact chosen
  | next before _ taken ih =>
      obtain ⟨t, _, _, finals, progress⟩ :=
        (sound_of_reachable (reachable.trans before)).progress taken
      rw [← finals] at ih
      cases progress with
      | quiet _ finals' =>
          rw [finals']
          exact ih
      | accept _ _ _ eq =>
          subst eq
          exact List.mem_append_left _ ih
      | choose _ finals' =>
          rw [finals']
          exact List.mem_append_left _ ih
      | finish _ _ _ eq =>
          subst eq
          exact List.mem_append_left _ ih

/-- The final number of a message is known: it has been chosen, or the message is delivered
somewhere. -/
def Known (D : Deployment Host) (s : System Host) (id : MsgIdentifier) : Prop :=
  (∃ f ∈ s.finals, f.ident = id) ∨ ∃ h ∈ D.hostnames, id ∈ s.deliveredIdents h

theorem Sound.final_of_known (sound : Sound D s) (known : s.Known D id) :
    ∃ f ∈ s.finals, f.ident = id := by
  rcases known with chosen | ⟨h, hh, delivered⟩
  · exact chosen
  · obtain ⟨m, mem, rfl⟩ := List.mem_map.mp delivered
    exact ((sound.receiver h hh).delivered m mem).2

/-- **Causal order.**  What is multicast once the final number of a message is known is delivered
behind that message, at every host, as long as neither the counters nor the identifiers wrap. -/
theorem causal_order (D : Deployment Host) {s₁ s₂ s₃ : System Host}
    (reachable : s₁.Reachable D) {earlier : MsgIdentifier} (known : s₁.Known D earlier) {p : Host}
    {data : UInt32} (multicast : s₁.step D (.multicast p data) = some s₂)
    (run : Reach (step D) Always s₂ s₃) (few : s₃.FewMulticasts D)
    (bound : s₃.accepted.length < UInt32.size) {q : Host} (hq : q ∈ D.hostnames)
    (front back : List MsgIdentifier)
    (delivered : s₃.deliveredIdents q =
      front ++ ((s₁.service p).createDataMessage D p data).ident :: back) :
    earlier ∈ front := by
  have few₂ := few.of_reach run
  have identified₁ := identified_of_reachable reachable (few₂.of_step multicast)
  have reachable₂ : s₂.Reachable D := reachable.next trivial multicast
  have reachable₃ := reachable₂.trans run
  have sound₃ := sound_of_reachable reachable₃
  obtain ⟨f, chosen, rfl⟩ := identified₁.toSound.final_of_known known
  have whole : Reach (step D) Always s₁ s₃ :=
    (Reach.next .start trivial multicast).trans run
  have order₁ : Sequenced D s₁ := by
    refine sequenced_of_reachable reachable (few₂.of_step multicast)
      (Nat.lt_of_le_of_lt ?_ bound)
    exact accepted_length_le reachable whole
  obtain ⟨r, hr, follows⟩ := identified₁.follows_of_multicast order₁ chosen multicast few₂
  have follows₃ := follows.run reachable₂ run few bound
  have here : ((s₁.service p).createDataMessage D p data).ident ∈ s₃.deliveredIdents q := by
    rw [delivered]
    exact List.mem_append_right _ List.mem_cons_self
  obtain ⟨g, later, same⟩ := sound₃.final_of_known (Or.inr ⟨q, hq, here⟩)
  have precedes := follows₃.precedes sound₃ hr (finals_of_reach reachable whole chosen) later same
  exact (sequenced_of_reachable reachable₃ few bound).gapless q hq front _ back delivered _ precedes

end System

/-- The first host multicasts, and the second one delivers that message. -/
def deliveringRun : List (Event Bool) :=
  [.multicast false 10, .sendData false 0 false, .sendData false 0 true,
    .receive false false 0 false, .receive false true 0 false,
    .receive false false 0 false, .receive true false 0 false,
    .sendSeq false 0 true, .receive false true 0 false]

/-- The second host sends a message of its own and delivers it. -/
def respondingRun : List (Event Bool) :=
  [.sendData true 0 true, .sendData true 0 false,
    .receive true true 0 false, .receive true false 1 false,
    .receive true true 0 false, .receive false true 0 false,
    .sendSeq true 0 true, .receive true true 0 false]

/-- The state in which `deliveringRun` ends. -/
def delivering : System Bool :=
  (replay (System.step twoHosts) (System.initial Bool) deliveringRun).get (by decide +kernel)

/-- The second host has multicast its message. -/
def responding : System Bool :=
  (delivering.step twoHosts (.multicast true 20)).get (by decide +kernel)

/-- The state in which `respondingRun` ends. -/
def responded : System Bool :=
  (replay (System.step twoHosts) responding respondingRun).get (by decide +kernel)

theorem causal_order_responding :
    responded.deliveredIdents true = [⟨1, 1⟩] ++ ⟨1, 2⟩ :: [] ∧
      (⟨1, 1⟩ : MsgIdentifier) ∈ ([⟨1, 1⟩] : List MsgIdentifier) := by
  have reachable : delivering.Reachable twoHosts := Reach.of_isSome (allowedAlong_always _ _) _
  have order : responded.deliveredIdents true = [⟨1, 1⟩] ++ ⟨1, 2⟩ :: [] := by decide +kernel
  have known : delivering.Known twoHosts ⟨1, 1⟩ := Or.inr ⟨true, by decide, by decide +kernel⟩
  exact ⟨order, System.causal_order twoHosts reachable known (Option.some_get _).symm
    (.of_isSome (allowedAlong_always _ _) _) (by decide +kernel) (by decide +kernel) (by decide)
    _ _ order⟩

end GroupComm.Lab1
