import GroupComm.Lab0.Stranded

/-!
# An empty list of receivers

The listener leaves its loop when it expects nobody any more and the list of receivers is empty.
The alive thread fills that list while the listener is running already, so an empty list may be
one from which every peer has been removed, or one that has not been filled yet.

* No `Ack` arrives before the list is full, so until then the list only grows: a listener that
  leaves while the alive thread still has a peer to add has not had an `Ack` of that peer.
* Where the list has been filled first (`FillsFirst`), leaving the loop means that every peer has
  been heard and has answered.
* A listener that has left takes nothing any more, so what it has missed it misses for good, and
  the host never gets READY.
-/

namespace GroupComm.Lab0

open Transition

namespace System

/-- The listener of `p` has taken an "I am alive" and an `Ack` of `q`. -/
def HeardAndAcked (s : System) (p q : Hostname) : Prop :=
  (∃ n, s.HasSent n q p .alive ∧ s.HasReceived p n) ∧
    ∃ a n, s.HasSent a q p (.ack n) ∧ s.HasReceived p a

/-- Every listener that has left its loop has heard all peers and has an `Ack` of each. -/
def Drained (F : Hostfile) (s : System) : Prop :=
  ∀ p, (s.processes p).receive = .left → ∀ q ∈ F.peerHostnames p, s.HeardAndAcked p q

/-- The alive thread of `p` still has peers to add. -/
def filling (s : System) (p : Hostname) : Bool :=
  match (s.processes p).alive with
  | .addToAliveMessageReceiverList (_ :: _) => true
  | _ => false

/-- A listener does not leave its loop while its alive thread still has peers to add. -/
def FillsFirst (s : System) : Event → Prop
  | .receive p => s.Leaves p → s.filling p = false
  | _ => True

instance decidableFillsFirst (s : System) : (e : Event) → Decidable (s.FillsFirst e)
  | .receive p => inferInstanceAs (Decidable (s.Leaves p → s.filling p = false))
  | .receiveMessage _ _ _ | .sendingAckMessages _ _ | .alive _ | .sendMessage _ _ _
  | .closeConnection _ _ | .ready _ | .lose _ => .isTrue trivial

variable {F : Hostfile} {s s' : System}

theorem filling_iff {p : Hostname} : s.filling p = true ↔
    ∃ h rest, (s.processes p).alive = .addToAliveMessageReceiverList (h :: rest) := by
  unfold filling
  constructor
  · intro still
    split at still
    · rename_i h rest place
      exact ⟨h, rest, place⟩
    · cases still
  · rintro ⟨h, rest, place⟩
    rw [place]

/-! ## Who has left -/

/-- A listener leaves its loop at the test, and does not come back. -/
theorem receive_of_step {e : Event} (taken : s.step F e = some s') (p : Hostname) :
    (s'.processes p).receive = (s.processes p).receive ∨
      (s.processes p).receive ≠ .left ∧
        ((s'.processes p).receive = .left → e = .receive p ∧ s.Leaves p) := by
  have one : ∀ {s₁ : System} (p' : Hostname) (next : Process), s₁.processes = s.processes →
      (next.receive = (s.processes p').receive ∨ (s.processes p').receive ≠ .left ∧
        (next.receive = .left → e = .receive p' ∧ s.Leaves p')) →
      (((s₁.setProcess p' next).processes p).receive = (s.processes p).receive ∨
        (s.processes p).receive ≠ .left ∧
          (((s₁.setProcess p' next).processes p).receive = .left →
            e = .receive p ∧ s.Leaves p)) := by
    intro s₁ p' next same here
    rw [processes_setProcess, same]
    split
    · rename_i eq
      rwa [eq]
    · exact Or.inl rfl
  cases stepCases_of_step taken with
  | bind running place => exact one _ _ rfl (Or.inr ⟨by rw [place]; exact nofun, nofun⟩)
  | signal running place => exact one _ _ rfl (Or.inr ⟨by rw [place]; exact nofun, nofun⟩)
  | listen running place => exact one _ _ rfl (Or.inr ⟨by rw [place]; exact nofun, nofun⟩)
  | leave running place heard answered =>
      exact one _ _ rfl (Or.inr ⟨by rw [place]; exact nofun,
        fun _ => ⟨rfl, place, heard, answered⟩⟩)
  | remove running place => exact one _ _ rfl (Or.inr ⟨by rw [place]; exact nofun, nofun⟩)
  | @take p' i copy number datagram running place =>
      refine one _ _ rfl (Or.inr ⟨by rw [place]; exact nofun, fun left => ?_⟩)
      unfold Process.take at left
      split at left <;> cases left
  | answer running place =>
      exact one _ _ (processes_post s _ _) (Or.inr ⟨by rw [place]; exact nofun, nofun⟩)
  | @sent p' q resolved rest pr running place mem udpSender =>
      obtain ⟨udpSenders, rfl⟩ := getUDPSender_eq udpSender
      exact one _ _ (processes_post s _ _) (Or.inl rfl)
  | lose => exact Or.inl rfl
  | _ => exact one _ _ rfl (Or.inl rfl)

/-- Who has left its loop takes nothing any more. -/
theorem received_of_left {e : Event} (taken : s.step F e = some s') {p : Hostname}
    (left : (s.processes p).receive = .left) {n : ℕ} (received : s'.HasReceived p n) :
    s.HasReceived p n := by
  unfold HasReceived at received
  rcases received_of_step taken with same | ⟨p', n', place, _, more⟩
  · rwa [same] at received
  · rw [more] at received
    rcases List.mem_append.mp received with old | new
    · exact old
    · cases List.mem_singleton.mp new
      rw [left] at place
      cases place

/-! ## A list that has been filled first -/

theorem HeardAndAcked.mono {p q : Hostname} (h : s.HeardAndAcked p q) (grows : Grows s s') :
    s'.HeardAndAcked p q := by
  obtain ⟨⟨n, alive, taken⟩, a, m, ack, received⟩ := h
  exact ⟨⟨n, grows.sent _ _ _ _ alive, grows.received _ _ taken⟩, a, m, grows.sent _ _ _ _ ack,
    grows.received _ _ received⟩

/-- A listener that is about to leave has heard every peer. -/
theorem Leaves.heard {p : Hostname} (leaves : s.Leaves p) (sound : Sound F s) :
    ∀ q ∈ F.peerHostnames p, s.Heard F p q := by
  obtain ⟨place, heard, _⟩ := leaves
  intro q peer
  refine (sound.listens p).heard (by rw [place]; exact nofun) q peer ?_
  rw [heard]
  exact Finset.notMem_empty q

theorem Leaves.dotless {p : Hostname} (leaves : s.Leaves p) (sound : Sound F s) :
    ∀ q ∈ F.peerHostnames p, '.' ∉ q := by
  intro q peer
  obtain ⟨n, src, _, _, name⟩ := leaves.heard sound q peer
  rw [← name]
  exact F.dotless_senderName src

theorem Leaves.heardAndAcked {p : Hostname} (leaves : s.Leaves p) (sound : Sound F s)
    (filled : s.filling p = false) : ∀ q ∈ F.peerHostnames p, s.HeardAndAcked p q := by
  intro q peer
  have dotless := leaves.dotless sound
  have gone : q ∉ (s.processes p).aliveMessageReceivers := by
    rw [leaves.2.2]
    exact Finset.notMem_empty q
  refine ⟨sound.heard_from dotless (leaves.heard sound q peer), ?_⟩
  rcases (sound.sends p).answered q peer gone with ⟨rest, place, mem⟩ | answered
  · cases rest with
    | nil => cases mem
    | cons h rest =>
        rw [filling_iff.mpr ⟨h, rest, place⟩] at filled
        cases filled
  · obtain ⟨n, a, _, _, ack, received⟩ := sound.answered_by dotless answered
    exact ⟨a, n, ack, received⟩

theorem Drained.step (sound : Sound F s) (h : Drained F s) {e : Event} (first : s.FillsFirst e)
    (taken : s.step F e = some s') : Drained F s' := by
  intro p left q peer
  refine HeardAndAcked.mono ?_ (grows_of_step taken)
  rcases receive_of_step taken p with same | ⟨_, leaves⟩
  · exact h p (same.symm.trans left) q peer
  · obtain ⟨rfl, exit⟩ := leaves left
    exact exit.heardAndAcked sound (first exit) q peer

theorem drained_of_reach (reach : Reach (step F) FillsFirst (initial F) s) : Drained F s := by
  refine reach.invariant_with (P := Drained F) (fun _ here => sound_of_reachable here.always)
    nofun ?_
  exact fun _ _ _ sound h first taken => h.step sound first taken

/-! ## A list that has not been filled -/

/-- The listener of `p` has left without an `Ack` of some peer. -/
def Abandons (F : Hostfile) (s : System) (p : Hostname) : Prop :=
  (s.processes p).receive = .left ∧ ∃ q ∈ F.peerHostnames p,
    ∀ a n, s.HasSent a q p (.ack n) → ¬ s.HasReceived p a

/-- What a listener has missed when it leaves, it misses for good. -/
theorem Abandons.step (known : ReceivesSent s) {p : Hostname} (h : Abandons F s p) {e : Event}
    (taken : s.step F e = some s') : Abandons F s' p := by
  obtain ⟨left, q, peer, missed⟩ := h
  refine ⟨?_, q, peer, fun a n sent received => ?_⟩
  · rcases receive_of_step taken p with same | ⟨away, _⟩
    · exact same.trans left
    · exact (away left).elim
  · have before := received_of_left taken left received
    obtain ⟨more, grown⟩ := sent_of_step taken
    rw [HasSent, grown, List.getElem?_append_left (known p a before)] at sent
    exact missed a n sent before

/-- No peer has answered a process whose list is not full yet. -/
theorem Leaves.abandons {p : Hostname} (leaves : s.Leaves p) (sound : Sound F s) {h : Hostname}
    {rest : List Hostname}
    (filling : (s.processes p).alive = .addToAliveMessageReceiverList (h :: rest)) :
    h ∈ F.peerHostnames p ∧ ∀ a n, s.HasSent a h p (.ack n) → ¬ s.HasReceived p a := by
  have peer := (sound.sends p).adding _ filling h List.mem_cons_self
  refine ⟨peer, fun a n ack received => ?_⟩
  have answered : s.Answered F p h :=
    ⟨a, h, n, ack, received, Hostfile.senderName_eq (leaves.dotless sound h peer)⟩
  obtain ⟨m, _, alive, _⟩ := sound.answered_by (leaves.dotless sound) answered
  exact (sound.filled m p h alive).1 _ filling

theorem Leaves.left_of_step {p : Hostname} (leaves : s.Leaves p) {h : Hostname}
    {rest : List Hostname}
    (filling : (s.processes p).alive = .addToAliveMessageReceiverList (h :: rest))
    (taken : s.step F (.receive p) = some s') :
    s' = s.setProcess p { s.processes p with receive := .left } := by
  obtain ⟨place, heard, answered⟩ := leaves
  have unlocked : (s.processes p).locked = false := by
    rw [Process.locked, filling]
  have stepped : (s.processes p).receiveStep (F.peerHostnames p) =
      some { s.processes p with receive := .left } := by
    simp only [Process.receiveStep, place, heard, answered, unlocked, ne_eq, not_true_eq_false,
      if_false, Bool.false_eq_true]
  unfold step at taken
  dsimp only at taken
  split at taken
  · rw [stepped] at taken
    exact (Option.some.inj taken).symm
  · cases taken

/-- A listener that leaves while the alive thread still has a peer to add abandons that peer. -/
theorem abandons_of_step (sound : Sound F s) {e : Event} (early : ¬ s.FillsFirst e)
    (taken : s.step F e = some s') : ∃ p, Abandons F s' p := by
  cases e with
  | receive p =>
      obtain ⟨leaves, filling⟩ := Classical.not_imp.mp early
      obtain ⟨h, rest, filling⟩ := filling_iff.mp (Bool.eq_true_of_not_eq_false filling)
      obtain ⟨peer, missed⟩ := leaves.abandons sound filling
      have left := leaves.left_of_step filling taken
      subst left
      refine ⟨p, ?_, h, peer, missed⟩
      rw [processes_setProcess, if_pos rfl]
  | _ => exact (early trivial).elim

/-- **Leaving the loop.**  In a run in which every listener that has left its loop has heard all
peers and has an `Ack` of each, no listener has left before its list was full, and only in those. -/
theorem drained_iff {events : List Event} (led : replay (step F) (initial F) events = some s) :
    Drained F s ↔ allowedAlong (step F) FillsFirst (initial F) events := by
  constructor
  · intro drained
    refine allowedAlong_of_not (Q := fun s => Sound F s ∧ ReceivesSent s)
      (B := fun s => ∃ p, Abandons F s p) ?_ ?_ ?_ ⟨sound_initial F, nofun⟩ led ?_
    · exact fun s e s' h taken => ⟨h.1.step taken, h.2.step taken⟩
    · exact fun s e s' h early taken => abandons_of_step h.1 early taken
    · exact fun s e s' h ⟨p, abandons⟩ taken => ⟨p, abandons.step h.2 taken⟩
    · rintro ⟨p, left, q, peer, missed⟩
      obtain ⟨_, a, n, ack, received⟩ := drained p left q peer
      exact missed a n ack received
  · exact fun first => drained_of_reach (.of_replay first led)

theorem drained_bothReady : Drained twoHosts bothReady := by
  have filled : allowedAlong (step twoHosts) FillsFirst (initial twoHosts)
      (firstRound ++ answers ++ stopping) := by decide +kernel
  exact (drained_iff (Option.some_get readyRun_some).symm).mpr filled

/-! A host that leaves before it has asked anybody. -/

/-- `b` has sent its message to `a`, which has bound its socket but has not filled its list; `a`
answers the message and finds both sets empty. -/
def answeredWhileFilling : List Event :=
  [.receive ['b'], .receive ['b'], .alive ['b'], .alive ['b'], .alive ['b'],
    .alive ['b'], .sendMessage ['b'] ['a'] true,
    .receive ['a'], .receive ['a'], .receive ['a'], .receiveMessage ['a'] 0 false,
    .sendingAckMessages ['a'] true, .receive ['a']]

/-- In the state that the events lead to, the listener of `a` has left, with nothing received from
`b` but its "I am alive". -/
theorem answeredWhileFilling_left :
    ∃ s ∈ replay (step twoHosts) (initial twoHosts) answeredWhileFilling,
      (s.processes ['a']).receive = .left ∧ s.received = [(['a'], 0)] ∧
        s.HasSent 0 ['b'] ['a'] .alive := by
  decide +kernel

/-- A listener that has left without an `Ack` of its peer. -/
theorem left_while_filling : ¬ ∀ (F : Hostfile) (s : System),
    Reach (step F) Always (initial F) s → Drained F s := by
  intro claim
  obtain ⟨s, led, left, received, sent⟩ := answeredWhileFilling_left
  have reach := Reach.of_replay (allowedAlong_always _ _) led
  obtain ⟨_, a, n, ack, taken⟩ := claim twoHosts s reach ['a'] left ['b'] (by decide)
  rw [HasReceived, received] at taken
  cases List.mem_singleton.mp taken
  rw [HasSent] at ack sent
  rw [sent] at ack
  cases ack

/-! ## Never READY -/

/-- A host whose listener has left early never gets READY, whatever happens next. -/
theorem not_ready_of_abandons (reach : Reach (step F) Always (initial F) s) {p : Hostname}
    (h : Abandons F s p) (later : Reach (step F) Always s s') :
    (s'.processes p).ready = false := by
  have reach' := reach.trans later
  have still : ReceivesSent s' ∧ Abandons F s' p := by
    refine later.invariant (P := fun s => ReceivesSent s ∧ Abandons F s p)
      ⟨receivesSent_of_reachable reach, h⟩ ?_
    exact fun _ _ _ h _ taken => ⟨h.1.step taken, h.2.step h.1 taken⟩
  obtain ⟨_, q, peer, missed⟩ := still.2
  rw [← Bool.not_eq_true]
  intro ready
  obtain ⟨host, other⟩ := Hostfile.mem_peerHostnames.mp peer
  obtain ⟨_, n, a, _, _, ack, received⟩ := heard_and_answered_of_ready reach' ready host other
  exact missed a n ack received

end System

end GroupComm.Lab0
