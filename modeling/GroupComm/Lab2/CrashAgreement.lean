import GroupComm.Lab2.Takeover

/-!
# Agreement after a leader crash

A leader whose group has agreed on a view crashes while it is idle or while it deletes a
peer, at any point of `modifyGroupMembership`.  The survivors may then be split: some hold
the request, some have installed the new view.  The new leader brings them together again.

Everything the survivors hold is computed from the agreed view by running the code of the
old leader up to the crash and the code of the survivors on what it sent.  That the new
leader is never behind rests on the order of `std::set`: new views go out in ascending order,
and the smallest survivor takes over.
-/

namespace GroupComm.Lab2

open MembershipService

variable {Client : Type}

/-- Where the old leader stops. -/
inductive CrashPoint where
  /-- Between two operations. -/
  | idle
  /-- While it deletes `peerId`; the request reaches the peers in `received`. -/
  | requesting (peerId : PeerId) (received : OrderedSet PeerId)
  /-- While it deletes `peerId`, with all answers; the new view reaches the first `count` of
  its live peers. -/
  | announcing (peerId : PeerId) (count : ℕ)

namespace CrashPoint

/-- The peer that is deleted. -/
def target : CrashPoint → Option PeerId
  | idle => none
  | requesting peerId _ => some peerId
  | announcing peerId _ => some peerId

/-- By how much the view identifier may grow until the takeover is over. -/
def increments : CrashPoint → ℕ
  | idle => 0
  | requesting _ _ => 1
  | announcing _ _ => 2

/-- Whether a peer has been sent the new view. -/
def Announced (s : MembershipService Client) : CrashPoint → PeerId → Prop
  | announcing peerId count, p => p ∈ (s.modifying peerId .DEL).alivePeers.toList.take count
  | _, _ => False

instance (s : MembershipService Client) : ∀ point p, Decidable (Announced s point p)
  | idle, _ => inferInstanceAs (Decidable False)
  | requesting _ _, _ => inferInstanceAs (Decidable False)
  | announcing peerId count, p =>
      inferInstanceAs (Decidable (p ∈ (s.modifying peerId .DEL).alivePeers.toList.take count))

/-- What a peer has received from a leader in state `s` that stops at a crash point. -/
def received (s : MembershipService Client) (leader : PeerId) : CrashPoint → PeerId → List Msg
  | idle, _ => []
  | requesting peerId received, p =>
      if p ∈ received then [.request (s.createRequestMsg peerId .DEL)] else []
  | announcing peerId count, p =>
      .request (s.createRequestMsg peerId .DEL) ::
        if Announced s (announcing peerId count) p then
          [.newView ((s.modified peerId .DEL).createNewViewMsg leader)]
        else []

end CrashPoint

/-- A group that has agreed on a view, the crash of its leader, and who survives it. -/
structure LeaderCrash (Client : Type) where
  leader : PeerId
  view : View
  before : PeerId → MembershipService Client
  point : CrashPoint
  survivors : OrderedSet PeerId
  connect : PeerId → Option Client
  agreed : ∀ p ∈ view.members,
    (before p).leaderPeerId = leader ∧ (before p).viewId = view.viewId ∧
      (before p).alivePeers = view.members.erase p
  /-- A leader may still hold what its own predecessor has left. -/
  nothing : ∀ p ∈ view.members, p ≠ leader → (before p).pendingRequest.operationType = .NOTHING
  led : leader ∈ view.members
  members : ∀ p ∈ survivors, p ∈ view.members
  leaderLost : leader ∉ survivors
  targetLost : ∀ peerId ∈ point.target, peerId ∉ survivors
  someone : ∃ p, p ∈ survivors
  reachable : ∀ p, connect p ≠ none ↔ p ∈ survivors

namespace LeaderCrash

variable (c : LeaderCrash Client)

/-- What a survivor has received from the old leader. -/
def received (p : PeerId) : List Msg :=
  c.point.received (c.before c.leader) c.leader p

/-- The state of a survivor that has handled what it received. -/
def atCrash (p : PeerId) : MembershipService Client :=
  ((c.before p).handleMsgs p (c.received p)).getD (c.before p)

/-- The leader that a survivor elects: `alivePeersGetter` returns the other survivors. -/
def elects (p : PeerId) : PeerId :=
  nextLeader p (c.survivors.erase p)

/-- What the new leader `me` gets from the others. -/
def peers : Peers Client :=
  answersOf c.connect c.atCrash

/-! ## The survivors at the crash -/

/-- What the rest needs to know about a survivor. -/
structure Surviving (p : PeerId) (s : MembershipService Client) : Prop where
  led : s.leaderPeerId = c.leader
  peers : ∀ q ∈ c.survivors, q ≠ p → q ∈ s.alivePeers
  notItself : p ∉ s.alivePeers
  announced : c.point.Announced (c.before c.leader) p →
    s.viewId = c.view.viewId + 1 ∧ s.pendingRequest.operationType = .NOTHING
  notAnnounced : ¬ c.point.Announced (c.before c.leader) p → s.viewId = c.view.viewId
  pending : s.pendingRequest.operationType ≠ .NOTHING →
    s.pendingRequest.operationType = .DEL ∧ s.pendingRequest.peerId ∉ c.survivors ∧
      c.point ≠ .idle

theorem surviving_before {p : PeerId} (mem : p ∈ c.survivors)
    (quiet : ¬ c.point.Announced (c.before c.leader) p) : c.Surviving p (c.before p) := by
  obtain ⟨led, viewId, alive⟩ := c.agreed p (c.members p mem)
  have nothing := c.nothing p (c.members p mem) fun same => c.leaderLost (same ▸ mem)
  refine ⟨led, fun q hq apart => ?_, ?_, fun announced => (quiet announced).elim,
    fun _ => viewId, fun held => (held nothing).elim⟩
  · rw [alive, OrderedSet.mem_erase]
    exact ⟨c.members q hq, apart⟩
  · rw [alive, OrderedSet.mem_erase]
    exact fun self => self.2 rfl

theorem surviving_request {p peerId : PeerId} (mem : p ∈ c.survivors)
    (target : c.point.target = some peerId)
    (quiet : ¬ c.point.Announced (c.before c.leader) p) :
    c.Surviving p
      ((c.before p).processRequestMsg ((c.before c.leader).createRequestMsg peerId .DEL)) := by
  obtain ⟨led, peers, notItself, announced, notAnnounced, _⟩ := c.surviving_before mem quiet
  refine ⟨led, peers, notItself, fun sent => (quiet sent).elim, notAnnounced, fun _ => ?_⟩
  refine ⟨rfl, c.targetLost peerId target, fun idle => ?_⟩
  rw [idle] at target
  cases target

theorem mem_modified {p peerId : PeerId} (mem : p ∈ c.survivors)
    (target : c.point.target = some peerId) :
    p ∈ ((c.before c.leader).modified peerId .DEL).getGroupMembers c.leader := by
  obtain ⟨_, _, alive⟩ := c.agreed c.leader c.led
  have apart : p ≠ c.leader := fun eq => c.leaderLost (eq ▸ mem)
  have notTarget : p ≠ peerId := fun eq => c.targetLost peerId target (eq ▸ mem)
  have kept : p ∈ ((c.before c.leader).alivePeers.erase peerId) := by
    rw [alive, OrderedSet.mem_erase, OrderedSet.mem_erase]
    exact ⟨⟨c.members p mem, apart⟩, notTarget⟩
  exact OrderedSet.mem_insert.mpr (Or.inr kept)

theorem surviving_newView {p peerId : PeerId} (target : c.point.target = some peerId)
    (announced : c.point.Announced (c.before c.leader) p) (s : MembershipService Client)
    (led : s.leaderPeerId = c.leader) :
    c.Surviving p (s.processNewViewMsg p
      (((c.before c.leader).modified peerId .DEL).createNewViewMsg c.leader)) := by
  have viewId := (c.agreed c.leader c.led).2.1
  refine ⟨led, fun q hq apart => ?_, fun self => ?_, fun _ => ⟨?_, rfl⟩,
    fun quiet => (quiet announced).elim, fun held => (held rfl).elim⟩
  · unfold processNewViewMsg createNewViewMsg
    dsimp only
    rw [OrderedSet.ofList_toList, OrderedSet.mem_erase]
    exact ⟨c.mem_modified hq target, apart⟩
  · exact (OrderedSet.mem_erase.mp self).2 rfl
  · rw [← viewId]
    rfl

/-- Every survivor handles what it has received from the old leader. -/
theorem surviving_atCrash {p : PeerId} (mem : p ∈ c.survivors) : c.Surviving p (c.atCrash p) := by
  have led := (c.agreed p (c.members p mem)).1
  unfold atCrash received
  cases point : c.point with
  | idle =>
      apply c.surviving_before mem
      rw [point]
      exact id
  | requesting peerId received =>
      have quiet : ¬ c.point.Announced (c.before c.leader) p := by
        rw [point]
        exact id
      by_cases has : p ∈ received
      · rw [CrashPoint.received, if_pos has]
        exact c.surviving_request mem (by rw [point]; rfl) quiet
      · rw [CrashPoint.received, if_neg has]
        exact c.surviving_before mem quiet
  | announcing peerId count =>
      have target : c.point.target = some peerId := by
        rw [point]
        rfl
      by_cases announced : c.point.Announced (c.before c.leader) p
      · rw [CrashPoint.received, ← point, if_pos announced]
        exact c.surviving_newView target announced _ led
      · rw [CrashPoint.received, ← point, if_neg announced]
        exact c.surviving_request mem target announced

/-- New views go out in ascending order. -/
theorem announced_of_le {p q : PeerId} (memP : p ∈ c.survivors) (le : p ≤ q)
    (announced : c.point.Announced (c.before c.leader) q) :
    c.point.Announced (c.before c.leader) p := by
  rcases eq_or_lt_of_le le with rfl | less
  · exact announced
  cases point : c.point with
  | idle =>
      rw [point] at announced
      exact announced
  | requesting peerId received =>
      rw [point] at announced
      exact announced
  | announcing peerId count =>
      rw [point] at announced
      refine OrderedSet.mem_take_of_lt announced ?_ less
      obtain ⟨_, _, alive⟩ := c.agreed c.leader c.led
      have apart : p ≠ c.leader := fun eq => c.leaderLost (eq ▸ memP)
      have notTarget : p ≠ peerId := fun eq =>
        c.targetLost peerId (by rw [point]; rfl) (eq ▸ memP)
      change p ∈ ((c.before c.leader).alivePeers.erase peerId)
      rw [alive, OrderedSet.mem_erase, OrderedSet.mem_erase]
      exact ⟨⟨c.members p memP, apart⟩, notTarget⟩

/-! ## The election -/

/-- All survivors elect the smallest of them. -/
theorem exists_elected :
    ∃ newLeader ∈ c.survivors, (∀ p ∈ c.survivors, newLeader ≤ p) ∧
      ∀ p ∈ c.survivors, c.elects p = newLeader := by
  obtain ⟨p, mem⟩ := c.someone
  have nonempty := List.ne_nil_of_mem (OrderedSet.mem_toList.mpr mem)
  obtain ⟨newLeader, head⟩ := Option.isSome_iff_exists.mp (List.isSome_head?.mpr nonempty)
  obtain ⟨memL, least⟩ := OrderedSet.le_of_head head
  refine ⟨newLeader, memL, least, fun q hq => ?_⟩
  unfold elects
  rw [nextLeader_eq_iff]
  refine ⟨?_, least q hq, fun r hr => least r (OrderedSet.mem_erase.mp hr).1⟩
  rw [OrderedSet.mem_erase]
  by_cases same : newLeader = q
  · exact Or.inl same
  · exact Or.inr ⟨memL, same⟩

/-! ## The takeover -/

/-- The peers of the new leader once it has reconnected are the other survivors. -/
theorem alivePeers_reconnect {newLeader : PeerId} (mem : newLeader ∈ c.survivors) (p : PeerId) :
    p ∈ ((c.atCrash newLeader).reconnect c.peers).alivePeers ↔
      p ∈ c.survivors ∧ p ≠ newLeader := by
  have here := c.surviving_atCrash mem
  rw [(reconnect_spec (c.atCrash newLeader) c.peers).1 p]
  constructor
  · rintro ⟨alive, _, connected⟩
    refine ⟨(c.reachable p).mp connected, ?_⟩
    rintro rfl
    exact here.notItself alive
  · rintro ⟨survivor, apart⟩
    refine ⟨here.peers p survivor apart, ?_, (c.reachable p).mpr survivor⟩
    rw [here.led]
    rintro rfl
    exact c.leaderLost survivor

/-- What a takeover brings about. -/
structure TookOver (newLeader : PeerId) (t : Takeover Client) : Prop where
  taken : (c.atCrash newLeader).takeOver newLeader c.peers = some t
  peers : ∀ p, p ∈ t.service.alivePeers ↔ p ∈ c.survivors ∧ p ≠ newLeader
  sent : ∀ p ∈ c.survivors, p ≠ newLeader → ∃ requests : List RequestMsg,
    sentTo t.sent p = requests.map .request ++ [.newView (t.service.createNewViewMsg newLeader)]
  viewId : t.service.viewId = (c.atCrash newLeader).viewId ∨
    t.service.viewId = (c.atCrash newLeader).viewId + 1 ∧ c.point ≠ .idle

/-- No other survivor holds the request. -/
theorem tookOver_of_none {newLeader : PeerId} (mem : newLeader ∈ c.survivors)
    (nothing : ∀ p ∈ ((c.atCrash newLeader).reconnect c.peers).alivePeers,
      (c.peers.pendingRequest p).operationType = .NOTHING) :
    ∃ t, c.TookOver newLeader t := by
  refine ⟨_, takeOver_of_none nothing, c.alivePeers_reconnect mem, fun p hp apart => ?_,
    Or.inl (reconnect_spec _ _).2.2⟩
  refine ⟨[], ?_⟩
  exact sentTo_map _ ((c.alivePeers_reconnect mem p).mpr ⟨hp, apart⟩) _

/-- Another survivor holds the request. -/
theorem tookOver_of_pending {newLeader p : PeerId} (mem : newLeader ∈ c.survivors)
    (memP : p ∈ ((c.atCrash newLeader).reconnect c.peers).alivePeers)
    (held : (c.peers.pendingRequest p).operationType ≠ .NOTHING) :
    ∃ t, c.TookOver newLeader t := by
  obtain ⟨q, memQ, heldQ, taken⟩ := takeOver_of_pending newLeader memP held
  obtain ⟨survivor, _⟩ := (c.alivePeers_reconnect mem q).mp memQ
  obtain ⟨del, lost, notIdle⟩ := (c.surviving_atCrash survivor).pending heldQ
  have isDel : (c.peers.pendingRequest q).operationType = .DEL := del
  have notIn : (c.peers.pendingRequest q).peerId ∉
      ((c.atCrash newLeader).reconnect c.peers).alivePeers := fun peer =>
    lost ((c.alivePeers_reconnect mem _).mp peer).1
  dsimp only at taken
  rw [isDel, modifyGroupMembership_eq_some newLeader (connected_reconnect _ _) (fun _ _ => rfl)
    (fun add => by cases add), Option.map_some] at taken
  have members : ∀ p, p ∈ ((c.atCrash newLeader).reconnect c.peers).alivePeers.erase
      (c.peers.pendingRequest q).peerId ↔ p ∈ c.survivors ∧ p ≠ newLeader := by
    intro p
    rw [OrderedSet.erase_of_notMem notIn]
    exact c.alivePeers_reconnect mem p
  refine ⟨_, taken, members, fun p hp apart => ?_, Or.inr ⟨?_, notIdle⟩⟩
  · refine ⟨[((c.atCrash newLeader).reconnect c.peers).createRequestMsg
      (c.peers.pendingRequest q).peerId .DEL], ?_⟩
    have peer := (members p).mpr ⟨hp, apart⟩
    dsimp only
    rw [sentTo_append]
    exact congrArg₂ _ (sentTo_map _ peer _) (sentTo_map _ peer _)
  · have same := (reconnect_spec (c.atCrash newLeader) c.peers).2.2
    rw [← same]
    rfl

theorem exists_tookOver {newLeader : PeerId} (mem : newLeader ∈ c.survivors) :
    ∃ t, c.TookOver newLeader t := by
  by_cases nothing : ∀ p ∈ ((c.atCrash newLeader).reconnect c.peers).alivePeers,
      (c.peers.pendingRequest p).operationType = .NOTHING
  · exact c.tookOver_of_none mem nothing
  · push Not at nothing
    obtain ⟨p, memP, held⟩ := nothing
    exact c.tookOver_of_pending mem memP held

/-! ## The new view -/

/-- The survivors agree: the new leader and every other survivor that has handled what it was
sent have the same view, whose members are the survivors. -/
structure Settled (newLeader : PeerId) (t : Takeover Client) : Prop where
  leader : t.service.getGroupMembers newLeader = c.survivors
  others : ∀ p ∈ c.survivors, p ≠ newLeader → ∀ client, ∃ s,
    ((c.atCrash p).waitForNewLeaderMsg newLeader client).handleMsgs p (sentTo t.sent p) = some s ∧
      s.installedView p = ⟨t.service.viewId, c.survivors⟩

/-- No survivor held a later view. -/
def NotBehind (t : Takeover Client) : Prop :=
  ∀ p ∈ c.survivors, (c.atCrash p).viewId ≤ t.service.viewId

theorem handleMsgs_requests (p : PeerId) (s : MembershipService Client)
    (requests : List RequestMsg) (m : NewViewMsg) : ∃ s' : MembershipService Client,
    s.handleMsgs p (requests.map .request ++ [.newView m]) = some (s'.processNewViewMsg p m) := by
  induction requests generalizing s with
  | nil => exact ⟨s, rfl⟩
  | cons request requests ih => exact ih (s.processRequestMsg request)

theorem TookOver.settled {newLeader : PeerId} {t : Takeover Client}
    (h : c.TookOver newLeader t) (mem : newLeader ∈ c.survivors) : c.Settled newLeader t := by
  have leader : t.service.getGroupMembers newLeader = c.survivors := by
    apply OrderedSet.ext
    intro p
    unfold getGroupMembers
    rw [OrderedSet.mem_insert, h.peers]
    constructor
    · rintro (rfl | ⟨survivor, _⟩)
      · exact mem
      · exact survivor
    · intro survivor
      by_cases same : p = newLeader
      · exact Or.inl same
      · exact Or.inr ⟨survivor, same⟩
  refine ⟨leader, fun p hp apart client => ?_⟩
  obtain ⟨requests, sent⟩ := h.sent p hp apart
  obtain ⟨s, handled⟩ := handleMsgs_requests p ((c.atCrash p).waitForNewLeaderMsg newLeader client)
    requests (t.service.createNewViewMsg newLeader)
  rw [sent]
  refine ⟨_, handled, ?_⟩
  rw [installedView_processNewViewMsg (by rw [leader]; exact hp), installedView, leader]

private theorem le_of_eq_add_one {v w : ViewId} (below : v.toNat + 1 < UInt32.size)
    (eq : w = v + 1) : v ≤ w := by
  rw [eq, UInt32.le_iff_toNat_le, UInt32.toNat_add]
  change v.toNat ≤ (v.toNat + 1) % UInt32.size
  rw [Nat.mod_eq_of_lt below]
  omega

/-- The smallest survivor is not behind. -/
theorem TookOver.notBehind {newLeader : PeerId} {t : Takeover Client}
    (h : c.TookOver newLeader t) (mem : newLeader ∈ c.survivors)
    (least : ∀ p ∈ c.survivors, newLeader ≤ p)
    (below : c.view.viewId.toNat + c.point.increments < UInt32.size) : c.NotBehind t := by
  have here := c.surviving_atCrash mem
  have same : ∀ p ∈ c.survivors, (c.atCrash p).viewId ≤ (c.atCrash newLeader).viewId := by
    intro p hp
    have there := c.surviving_atCrash hp
    by_cases announcedP : c.point.Announced (c.before c.leader) p
    · have announced := c.announced_of_le mem (least p hp) announcedP
      rw [(there.announced announcedP).1, (here.announced announced).1]
    · rw [there.notAnnounced announcedP]
      by_cases announced : c.point.Announced (c.before c.leader) newLeader
      · refine le_of_eq_add_one ?_ (here.announced announced).1
        cases point : c.point with
        | idle => rw [point] at announced; exact announced.elim
        | requesting peerId received => rw [point] at announced; exact announced.elim
        | announcing peerId count =>
            rw [point] at below
            exact Nat.lt_of_succ_lt below
      · rw [here.notAnnounced announced]
  intro p hp
  apply le_trans (same p hp)
  rcases h.viewId with kept | ⟨next, notIdle⟩
  · rw [kept]
  · apply le_of_eq_add_one _ next
    by_cases announced : c.point.Announced (c.before c.leader) newLeader
    · rw [(here.announced announced).1, UInt32.toNat_add]
      cases point : c.point with
      | idle => exact (notIdle point).elim
      | requesting peerId received => rw [point] at announced; exact announced.elim
      | announcing peerId count =>
          rw [point] at below
          change (c.view.viewId.toNat + 1) % UInt32.size + 1 < UInt32.size
          change c.view.viewId.toNat + 2 < UInt32.size at below
          rw [Nat.mod_eq_of_lt (by omega)]
          omega
    · rw [here.notAnnounced announced]
      cases point : c.point with
      | idle => exact (notIdle point).elim
      | requesting peerId received =>
          rw [point] at below
          exact below
      | announcing peerId count =>
          rw [point] at below
          exact Nat.lt_of_succ_lt below

/-- **Agreement after a leader crash.**  The survivors elect the same new leader, its takeover
goes through, and all of them then have the same view of exactly the survivors.  As long as
view identifiers do not wrap around it is not older than any view they had before. -/
theorem agreement_after_crash (c : LeaderCrash Client) :
    ∃ newLeader ∈ c.survivors, (∀ p ∈ c.survivors, c.elects p = newLeader) ∧
      ∃ t, (c.atCrash newLeader).takeOver newLeader c.peers = some t ∧
        c.Settled newLeader t ∧
        (c.view.viewId.toNat + c.point.increments < UInt32.size → c.NotBehind t) := by
  obtain ⟨newLeader, mem, least, elected⟩ := c.exists_elected
  obtain ⟨t, tookOver⟩ := c.exists_tookOver mem
  exact ⟨newLeader, mem, elected, t, tookOver.taken, tookOver.settled c mem,
    tookOver.notBehind c mem least⟩

/-! ## Peers 1 to 4, of which 4 and then the leader 1 crash -/

/-- The request to delete peer 4 has reached peers 2 and 3. -/
def deletingPeer4 (viewId : ViewId) : LeaderCrash Unit where
  leader := 1
  view := ⟨viewId, OrderedSet.ofList [1, 2, 3, 4]⟩
  before p := { viewId := viewId, alivePeers := (OrderedSet.ofList [1, 2, 3, 4]).erase p }
  point := .requesting 4 (OrderedSet.ofList [2, 3])
  survivors := OrderedSet.ofList [2, 3]
  connect p := if p ∈ OrderedSet.ofList [2, 3] then some () else none
  agreed _ _ := ⟨rfl, rfl, rfl⟩
  nothing _ _ _ := rfl
  led := (by decide : (1 : PeerId) ∈ OrderedSet.ofList [1, 2, 3, 4])
  members p mem := by
    simp only [OrderedSet.mem_ofList, List.mem_cons, List.not_mem_nil, or_false] at mem
    rcases mem with rfl | rfl
    · exact (by decide : (2 : PeerId) ∈ OrderedSet.ofList [1, 2, 3, 4])
    · exact (by decide : (3 : PeerId) ∈ OrderedSet.ofList [1, 2, 3, 4])
  leaderLost := by decide
  targetLost := by
    intro peerId target
    cases target
    decide
  someone := ⟨2, by decide⟩
  reachable p := by
    split
    · simp_all
    · simp_all

theorem agreement_after_crash_view4 :
    4 + 1 < UInt32.size ∧
      ∃ t, ((deletingPeer4 4).atCrash 2).takeOver 2 (deletingPeer4 4).peers = some t ∧
        (deletingPeer4 4).NotBehind t := by
  obtain ⟨newLeader, mem, elected, t, taken, _, notBehind⟩ := agreement_after_crash (deletingPeer4 4)
  have isTwo : newLeader = 2 := by
    rw [← elected 2 (by decide)]
    decide
  subst isTwo
  exact ⟨by decide, t, taken, notBehind (by decide)⟩

/-- **Wraparound.**  In view `2 ^ 32 - 1` the completed deletion makes view 0. -/
theorem behind_after_wraparound :
    ¬ ∀ c : LeaderCrash Unit,
      ∃ newLeader ∈ c.survivors, (∀ p ∈ c.survivors, c.elects p = newLeader) ∧
        ∃ t, (c.atCrash newLeader).takeOver newLeader c.peers = some t ∧
          c.Settled newLeader t ∧ c.NotBehind t := by
  intro always
  obtain ⟨newLeader, mem, elected, t, taken, _, notBehind⟩ := always (deletingPeer4 4294967295)
  have isTwo : newLeader = 2 := by
    rw [← elected 2 (by decide)]
    decide
  subst isTwo
  have wrapped : (((deletingPeer4 4294967295).atCrash 2).takeOver 2
      (deletingPeer4 4294967295).peers).map (fun t => t.service.viewId) = some 0 := by
    decide +kernel
  rw [taken, Option.map_some, Option.some.injEq] at wrapped
  have le := notBehind 2 mem
  rw [wrapped] at le
  revert le
  decide +kernel

end LeaderCrash

end GroupComm.Lab2
