import GroupComm.Lab2.MembershipService

/-!
# Taking over from a crashed leader

`handleLeaderCrash` and what it calls, as functions of the state of the process that runs it
and of what the other processes do meanwhile (`Peers`): which of them can be connected to,
and what they answer.  A call of `tcpClientMap.at` for a missing key, or an answer that fails
a `CHECK`, ends the process; it is `none` here.

* `modifyGroupMembership` is the whole exchange, from the request to the new view.
* `takeOver` is the branch of `handleLeaderCrash` that the new leader takes, up to
  `startAsLeader`.
* `takeOver_of_pending` and `takeOver_of_none` say what it does in its two cases.
-/

namespace GroupComm.Lab2

namespace MembershipService

variable {Client : Type} (me : PeerId)

/-- What the other processes do during a takeover. -/
structure Peers (Client : Type) where
  /-- The connection to a peer, when one can be made and takes the `NewLeaderMsg`. -/
  connect : PeerId → Option Client
  /-- What a peer sends when it has received the `NewLeaderMsg`. -/
  pendingRequest : PeerId → RequestMsg
  /-- How a peer answers a request. -/
  answer : PeerId → RequestMsg → OkMsg

/-- `nextLeader`: the smallest of the live peers and the process itself. -/
def nextLeader (alivePeers : OrderedSet PeerId) : PeerId :=
  ((alivePeers.insert me).toList.head?).getD me

/-- Sends a message to every peer in `alivePeers`, in ascending order. -/
def sendToAll (s : MembershipService Client) (m : Msg) : Option (List (PeerId × Msg)) :=
  s.alivePeers.toList.mapM fun peerId => (s.tcpClientMap peerId).map fun _ => (peerId, m)

/-- `sendNewLeaderMsg`: peers that cannot be connected to leave the group. -/
def sendNewLeaderMsg (s : MembershipService Client) (peers : Peers Client) :
    MembershipService Client :=
  let (s, tempAlivePeers) := s.alivePeers.toList.foldl
    (fun (s, tempAlivePeers) peer =>
      match peers.connect peer with
      | some client => (s.insertClient peer client, tempAlivePeers.insert peer)
      | none => (s, tempAlivePeers))
    (s.countRequest, ∅)
  { s with alivePeers := tempAlivePeers }

/-- `waitForPendingRequestMsg`: the last request that is not the dummy. -/
def waitForPendingRequestMsg (s : MembershipService Client) (peers : Peers Client) :
    RequestMsg :=
  s.alivePeers.toList.foldl
    (fun pendingRequestMsg peer =>
      if (s.tcpClientMap peer).isSome then
        let requestMsg := peers.pendingRequest peer
        if requestMsg.operationType ≠ .NOTHING then requestMsg else pendingRequestMsg
      else pendingRequestMsg)
    getDummyPendingRequestMsg

/-- `waitForOkMsg`: every peer has a connection and answers the request it was sent. -/
def waitForOkMsg (s : MembershipService Client) (peers : Peers Client) (requestMsg : RequestMsg) :
    Bool :=
  s.alivePeers.toList.all fun peerId =>
    (s.tcpClientMap peerId).isSome &&
      decide ((peers.answer peerId requestMsg).requestId = requestMsg.requestId)

/-- `modifyGroupMembership`: the state it leaves and what it sends. -/
def modifyGroupMembership (s : MembershipService Client) (peers : Peers Client)
    (peerId : PeerId) (operationType : OperationTypeEnum) :
    Option (MembershipService Client × List (PeerId × Msg)) := do
  let requestMsg := s.createRequestMsg peerId operationType
  let s := s.countRequest.beginModification peerId operationType
  let requests ← s.sendToAll (.request requestMsg)
  if s.waitForOkMsg peers requestMsg then
    let s := s.endModification peerId operationType
    let views ← s.sendToAll (.newView (s.createNewViewMsg me))
    some (s, requests ++ views)
  else none

/-- What a takeover leaves: the state of the new leader, the membership operations it has
carried out, and the messages it has sent after the `NewLeaderMsg`. -/
structure Takeover (Client : Type) where
  service : MembershipService Client
  operations : List (PeerId × OperationTypeEnum)
  sent : List (PeerId × Msg)

/-- The first steps of a takeover, up to the answers of the peers. -/
def reconnect (s : MembershipService Client) (peers : Peers Client) : MembershipService Client :=
  { s with
    tcpClientMap := fun _ => none
    alivePeers := s.alivePeers.erase s.leaderPeerId }.sendNewLeaderMsg peers

/-- `handleLeaderCrash` at the new leader. -/
def takeOver (s : MembershipService Client) (peers : Peers Client) : Option (Takeover Client) := do
  let s := s.reconnect peers
  let pendingRequestMsg := s.waitForPendingRequestMsg peers
  if pendingRequestMsg.operationType ≠ .NOTHING then
    let (s, sent) ← s.modifyGroupMembership me peers pendingRequestMsg.peerId
      pendingRequestMsg.operationType
    some
      { service := { s with leaderPeerId := me }
        operations := [(pendingRequestMsg.peerId, pendingRequestMsg.operationType)]
        sent := sent }
  else
    let sent ← s.sendToAll (.newView (s.createNewViewMsg me))
    some { service := { s with leaderPeerId := me }, operations := [], sent := sent }

/-- `handleLeaderCrash` at any other process, up to its answer: `waitForNewLeaderMsg` on the
connection that the new leader opens. -/
def waitForNewLeaderMsg (s : MembershipService Client) (newLeader : PeerId) (client : Client) :
    MembershipService Client :=
  { s with
    leaderPeerId := newLeader
    tcpClientMap := Function.update (fun _ => none) newLeader (some client) }

/-- What a process in `startAsFollower` does with a message, its answer apart. -/
def handleMsg (s : MembershipService Client) : Msg → Option (MembershipService Client)
  | .request m => some (s.processRequestMsg m)
  | .newView m => some (s.processNewViewMsg me m)
  | .ok _ => none
  | .newLeader _ => none

/-- A process in `startAsFollower` once it has handled a list of messages. -/
def handleMsgs (s : MembershipService Client) (messages : List Msg) :
    Option (MembershipService Client) :=
  messages.foldlM (handleMsg me) s

/-- The messages among those sent that go to `p`. -/
def sentTo (sent : List (PeerId × Msg)) (p : PeerId) : List Msg :=
  (sent.filter fun message => decide (message.1 = p)).map Prod.snd

/-- What a process that runs the code answers to a new leader: the request it holds, and an
`OkMsg` for the request it is sent. -/
def answersOf (connect : PeerId → Option Client) (σ : PeerId → MembershipService Client) :
    Peers Client where
  connect := connect
  pendingRequest p := (σ p).createPendingRequestMsg
  answer p requestMsg := ((σ p).processRequestMsg requestMsg).createOkMsg

/-! ## Electing -/

variable {me}

theorem nextLeader_eq_iff {alivePeers : OrderedSet PeerId} {p : PeerId} :
    nextLeader me alivePeers = p ↔
      (p = me ∨ p ∈ alivePeers) ∧ p ≤ me ∧ ∀ q ∈ alivePeers, p ≤ q := by
  have nonempty : (alivePeers.insert me).toList.head? ≠ none := by
    rw [ne_eq, List.head?_eq_none_iff]
    exact List.ne_nil_of_mem (OrderedSet.mem_toList.mpr (OrderedSet.mem_insert.mpr (Or.inl rfl)))
  obtain ⟨least, head⟩ := Option.ne_none_iff_exists'.mp nonempty
  have spec := OrderedSet.head_eq_iff (s := alivePeers.insert me) (a := p)
  rw [nextLeader, head, Option.getD_some]
  rw [head, Option.some.injEq] at spec
  rw [spec]
  simp only [OrderedSet.mem_insert, forall_eq_or_imp]

/-! ## Sending -/

theorem mapM_eq_some_of_forall {α β : Type} {f : α → Option β} {g : α → β} {l : List α}
    (defined : ∀ a ∈ l, f a = some (g a)) : l.mapM f = some (l.map g) := by
  induction l with
  | nil => rfl
  | cons a l ih =>
      rw [List.mapM_cons, defined a (by simp), ih fun b hb => defined b (by simp [hb])]
      rfl

theorem mapM_eq_none_of_mem {α β : Type} {f : α → Option β} {l : List α} {a : α} (mem : a ∈ l)
    (undefined : f a = none) : l.mapM f = none := by
  induction l with
  | nil => cases mem
  | cons b l ih =>
      rw [List.mapM_cons]
      rcases List.mem_cons.mp mem with rfl | later
      · rw [undefined]
        rfl
      · rw [ih later]
        cases f b <;> rfl

/-- With all its connections a process sends to every peer it believes alive. -/
theorem sendToAll_of_connected {s : MembershipService Client} (connected : s.Connected)
    (m : Msg) : s.sendToAll m = some (s.alivePeers.toList.map fun p => (p, m)) := by
  refine mapM_eq_some_of_forall fun p hp => ?_
  obtain ⟨client, found⟩ := Option.ne_none_iff_exists'.mp (connected p hp)
  rw [found]
  rfl

/-- A missing connection ends the process. -/
theorem sendToAll_of_missing {s : MembershipService Client} {p : PeerId} (mem : p ∈ s.alivePeers)
    (missing : s.tcpClientMap p = none) (m : Msg) : s.sendToAll m = none :=
  mapM_eq_none_of_mem mem (by rw [missing]; rfl)

theorem sentTo_append (sent sent' : List (PeerId × Msg)) (p : PeerId) :
    sentTo (sent ++ sent') p = sentTo sent p ++ sentTo sent' p := by
  rw [sentTo, List.filter_append, List.map_append]
  rfl

/-- A message to all the peers in a set reaches each of them once. -/
theorem sentTo_map (s : OrderedSet PeerId) {p : PeerId} (mem : p ∈ s) (m : Msg) :
    sentTo (s.toList.map fun q => (q, m)) p = [m] := by
  have nodup := s.nodup
  rw [← OrderedSet.mem_toList] at mem
  revert mem nodup
  generalize s.toList = l
  intro mem nodup
  induction l with
  | nil => cases mem
  | cons q l ih =>
      obtain ⟨notIn, nodup⟩ := List.nodup_cons.mp nodup
      rcases List.mem_cons.mp mem with rfl | later
      · have rest : sentTo (l.map fun q => (q, m)) p = [] := by
          unfold sentTo
          rw [List.map_eq_nil_iff, List.filter_eq_nil_iff]
          intro message found
          obtain ⟨q, hq, rfl⟩ := List.mem_map.mp found
          rw [decide_eq_true_iff]
          rintro rfl
          exact notIn hq
        change sentTo ([(p, m)] ++ l.map fun q => (q, m)) p = [m]
        rw [sentTo_append, rest, List.append_nil]
        simp [sentTo]
      · have apart : q ≠ p := by
          rintro rfl
          exact notIn later
        change sentTo ([(q, m)] ++ l.map fun q => (q, m)) p = [m]
        rw [sentTo_append, ih later nodup]
        simp [sentTo, apart]

/-! ## Reconnecting -/

private theorem foldl_connect (peers : Peers Client) (l : List PeerId)
    (s : MembershipService Client) (temp : OrderedSet PeerId) :
    let r := l.foldl
      (fun (acc : MembershipService Client × OrderedSet PeerId) peer =>
        match peers.connect peer with
        | some client => (acc.1.insertClient peer client, acc.2.insert peer)
        | none => acc) (s, temp)
    r.1 = { s with tcpClientMap := r.1.tcpClientMap } ∧
      (∀ p, r.1.tcpClientMap p ≠ none ↔
        s.tcpClientMap p ≠ none ∨ p ∈ l ∧ peers.connect p ≠ none) ∧
      ∀ p, p ∈ r.2 ↔ p ∈ temp ∨ p ∈ l ∧ peers.connect p ≠ none := by
  induction l generalizing s temp with
  | nil => simp
  | cons peer l ih =>
      rw [List.foldl_cons]
      cases connected : peers.connect peer with
      | none =>
          obtain ⟨same, keys, members⟩ := ih s temp
          refine ⟨same, fun p => ?_, fun p => ?_⟩
          · rw [keys, List.mem_cons]
            constructor
            · rintro (old | ⟨mem, open'⟩)
              · exact Or.inl old
              · exact Or.inr ⟨Or.inr mem, open'⟩
            · rintro (old | ⟨rfl | mem, open'⟩)
              · exact Or.inl old
              · exact (open' connected).elim
              · exact Or.inr ⟨mem, open'⟩
          · rw [members, List.mem_cons]
            constructor
            · rintro (old | ⟨mem, open'⟩)
              · exact Or.inl old
              · exact Or.inr ⟨Or.inr mem, open'⟩
            · rintro (old | ⟨rfl | mem, open'⟩)
              · exact Or.inl old
              · exact (open' connected).elim
              · exact Or.inr ⟨mem, open'⟩
      | some client =>
          obtain ⟨same, keys, members⟩ := ih (s.insertClient peer client) (temp.insert peer)
          refine ⟨same, fun p => ?_, fun p => ?_⟩
          · rw [keys, List.mem_cons, insertClient]
            by_cases here : p = peer
            · subst here
              simp [connected]
            · simp [here]
          · rw [members, OrderedSet.mem_insert, List.mem_cons]
            constructor
            · rintro ((rfl | old) | ⟨mem, open'⟩)
              · exact Or.inr ⟨Or.inl rfl, by simp [connected]⟩
              · exact Or.inl old
              · exact Or.inr ⟨Or.inr mem, open'⟩
            · rintro (old | ⟨rfl | mem, open'⟩)
              · exact Or.inl (Or.inr old)
              · exact Or.inl (Or.inl rfl)
              · exact Or.inr ⟨mem, open'⟩

/-- After reconnecting, the peers are those of the old view that could be connected to, and
they are exactly those with a connection. -/
theorem reconnect_spec (s : MembershipService Client) (peers : Peers Client) :
    (∀ p, p ∈ (s.reconnect peers).alivePeers ↔
      p ∈ s.alivePeers ∧ p ≠ s.leaderPeerId ∧ peers.connect p ≠ none) ∧
      (∀ p, (s.reconnect peers).tcpClientMap p ≠ none ↔ p ∈ (s.reconnect peers).alivePeers) ∧
      (s.reconnect peers).viewId = s.viewId := by
  obtain ⟨same, keys, members⟩ := foldl_connect peers
    (s.alivePeers.erase s.leaderPeerId).toList
    ({ s with
      tcpClientMap := fun _ => none
      alivePeers := s.alivePeers.erase s.leaderPeerId }.countRequest) ∅
  have alive : ∀ p, p ∈ (s.reconnect peers).alivePeers ↔
      p ∈ s.alivePeers ∧ p ≠ s.leaderPeerId ∧ peers.connect p ≠ none := by
    intro p
    refine (members p).trans ?_
    rw [OrderedSet.mem_toList, OrderedSet.mem_erase]
    simp [and_assoc]
  refine ⟨alive, fun p => ?_, ?_⟩
  · rw [alive]
    refine (keys p).trans ?_
    rw [OrderedSet.mem_toList, OrderedSet.mem_erase]
    simp [countRequest, and_assoc]
  · have viewId := congrArg MembershipService.viewId same
    exact viewId

theorem connected_reconnect (s : MembershipService Client) (peers : Peers Client) :
    (s.reconnect peers).Connected :=
  fun p mem => ((reconnect_spec s peers).2.1 p).mpr mem

/-! ## The pending request -/

private theorem foldl_pending {peers : Peers Client} (keep : PeerId → Bool) (l : List PeerId)
    (start : RequestMsg) :
    let r := l.foldl
      (fun pendingRequestMsg peer =>
        if keep peer then
          if (peers.pendingRequest peer).operationType ≠ .NOTHING then peers.pendingRequest peer
          else pendingRequestMsg
        else pendingRequestMsg) start
    (r = start ∧ ∀ p ∈ l, keep p = true → (peers.pendingRequest p).operationType = .NOTHING) ∨
      ∃ p ∈ l, keep p = true ∧ (peers.pendingRequest p).operationType ≠ .NOTHING ∧
        r = peers.pendingRequest p := by
  induction l generalizing start with
  | nil => simp
  | cons peer l ih =>
      rw [List.foldl_cons]
      by_cases counts : keep peer = true ∧ (peers.pendingRequest peer).operationType ≠ .NOTHING
      · rw [if_pos counts.1, if_pos counts.2]
        rcases ih (peers.pendingRequest peer) with ⟨eq, _⟩ | ⟨p, mem, kept, op, eq⟩
        · exact Or.inr ⟨peer, by simp, counts.1, counts.2, eq⟩
        · exact Or.inr ⟨p, by simp [mem], kept, op, eq⟩
      · have skip : (if keep peer then
            if (peers.pendingRequest peer).operationType ≠ .NOTHING then
              peers.pendingRequest peer
            else start
          else start) = start := by
          split
          · rename_i kept
            rw [if_neg fun op => counts ⟨kept, op⟩]
          · rfl
        rw [skip]
        rcases ih start with ⟨eq, none⟩ | ⟨p, mem, kept, op, eq⟩
        · refine Or.inl ⟨eq, fun p mem kept => ?_⟩
          rcases List.mem_cons.mp mem with rfl | later
          · by_contra op
            exact counts ⟨kept, op⟩
          · exact none p later kept
        · exact Or.inr ⟨p, by simp [mem], kept, op, eq⟩

/-- The request found is one that a peer with a connection holds; it is the dummy when none
of them holds any. -/
theorem waitForPendingRequestMsg_cases (s : MembershipService Client) (peers : Peers Client) :
    (s.waitForPendingRequestMsg peers = getDummyPendingRequestMsg ∧
      ∀ p ∈ s.alivePeers, (s.tcpClientMap p).isSome = true →
        (peers.pendingRequest p).operationType = .NOTHING) ∨
      ∃ p ∈ s.alivePeers, (s.tcpClientMap p).isSome = true ∧
        (peers.pendingRequest p).operationType ≠ .NOTHING ∧
        s.waitForPendingRequestMsg peers = peers.pendingRequest p :=
  foldl_pending (fun p => (s.tcpClientMap p).isSome) s.alivePeers.toList
    getDummyPendingRequestMsg

/-! ## A whole modification -/

/-- The state between the requests and the answers. -/
def modifying (s : MembershipService Client) (peerId : PeerId)
    (operationType : OperationTypeEnum) : MembershipService Client :=
  s.countRequest.beginModification peerId operationType

/-- The state that a completed modification leaves. -/
def modified (s : MembershipService Client) (peerId : PeerId)
    (operationType : OperationTypeEnum) : MembershipService Client :=
  (s.modifying peerId operationType).endModification peerId operationType

theorem modifyGroupMembership_eq (s : MembershipService Client) (peers : Peers Client)
    (peerId : PeerId) (operationType : OperationTypeEnum) :
    s.modifyGroupMembership me peers peerId operationType =
      let requestMsg := s.createRequestMsg peerId operationType
      let during := s.modifying peerId operationType
      let after := s.modified peerId operationType
      (during.sendToAll (.request requestMsg)).bind fun requests =>
        if during.waitForOkMsg peers requestMsg then
          (after.sendToAll (.newView (after.createNewViewMsg me))).bind fun views =>
            some (after, requests ++ views)
        else none :=
  rfl

theorem connected_beginModification {s : MembershipService Client} (connected : s.Connected)
    (peerId : PeerId) (operationType : OperationTypeEnum) :
    (s.beginModification peerId operationType).Connected := by
  unfold beginModification
  split
  · intro p mem
    obtain ⟨mem, apart⟩ := OrderedSet.mem_erase.mp mem
    dsimp only
    rw [Function.update_of_ne apart]
    exact connected p mem
  · exact connected

theorem connected_endModification {s : MembershipService Client} (connected : s.Connected)
    {peerId : PeerId} {operationType : OperationTypeEnum}
    (joins : operationType = .ADD → s.tcpClientMap peerId ≠ none) :
    (s.endModification peerId operationType).Connected := by
  intro p mem
  unfold endModification at mem
  dsimp only at mem
  split at mem
  · rename_i add
    rcases OrderedSet.mem_insert.mp mem with rfl | mem
    · exact joins add
    · exact connected p mem
  · exact connected p mem

/-- With all its connections, a process whose peers answer completes a modification, unless
it has to add a peer it has no connection to. -/
theorem modifyGroupMembership_eq_some (me : PeerId) {s : MembershipService Client}
    {peers : Peers Client}
    (connected : s.Connected)
    (answers : ∀ p m, (peers.answer p m).requestId = m.requestId) {peerId : PeerId}
    {operationType : OperationTypeEnum}
    (joins : operationType = .ADD → s.tcpClientMap peerId ≠ none) :
    let during := s.modifying peerId operationType
    let after := s.modified peerId operationType
    s.modifyGroupMembership me peers peerId operationType =
      some (after,
        during.alivePeers.toList.map (fun p =>
          (p, .request (s.createRequestMsg peerId operationType))) ++
        after.alivePeers.toList.map (fun p => (p, .newView (after.createNewViewMsg me)))) := by
  intro during after
  have begun : s.countRequest.Connected := connected
  have sends : during.Connected := connected_beginModification begun peerId operationType
  have views : after.Connected := by
    apply connected_endModification sends
    intro add
    subst add
    exact joins rfl
  have oks : during.waitForOkMsg peers (s.createRequestMsg peerId operationType) = true := by
    unfold waitForOkMsg
    rw [List.all_eq_true]
    intro p mem
    rw [Bool.and_eq_true, Option.isSome_iff_ne_none, decide_eq_true_iff]
    exact ⟨sends p mem, answers p _⟩
  rw [modifyGroupMembership_eq]
  dsimp only
  rw [sendToAll_of_connected sends, Option.bind_some, if_pos oks, sendToAll_of_connected views,
    Option.bind_some]

/-- Adding a peer without a connection ends the process. -/
theorem modifyGroupMembership_eq_none {s : MembershipService Client} (peers : Peers Client)
    {peerId : PeerId} (missing : s.tcpClientMap peerId = none) :
    s.modifyGroupMembership me peers peerId .ADD = none := by
  have added : peerId ∈ (s.modified peerId .ADD).alivePeers :=
    OrderedSet.mem_insert.mpr (Or.inl rfl)
  have views := sendToAll_of_missing added missing
    (.newView ((s.modified peerId .ADD).createNewViewMsg me))
  rw [modifyGroupMembership_eq]
  dsimp only
  rw [views]
  cases (s.modifying peerId .ADD).sendToAll (.request (s.createRequestMsg peerId .ADD)) with
  | none => rfl
  | some requests =>
      rw [Option.bind_some]
      split <;> rfl

/-! ## A whole takeover -/

/-- A new leader whose peers hold no request sends its view with the identifier it has. -/
theorem takeOver_of_none {s : MembershipService Client} {peers : Peers Client}
    (nothing : ∀ p ∈ (s.reconnect peers).alivePeers,
      (peers.pendingRequest p).operationType = .NOTHING) :
    s.takeOver me peers = some
      { service := { s.reconnect peers with leaderPeerId := me }
        operations := []
        sent := (s.reconnect peers).alivePeers.toList.map fun p =>
          (p, .newView ((s.reconnect peers).createNewViewMsg me)) } := by
  have dummy : (s.reconnect peers).waitForPendingRequestMsg peers = getDummyPendingRequestMsg := by
    rcases waitForPendingRequestMsg_cases (s.reconnect peers) peers with
      ⟨dummy, _⟩ | ⟨p, mem, _, held, _⟩
    · exact dummy
    · exact (held (nothing p mem)).elim
  have views := sendToAll_of_connected (connected_reconnect s peers)
    (.newView ((s.reconnect peers).createNewViewMsg me))
  unfold takeOver
  dsimp only
  rw [dummy, if_neg (fun held => held rfl), views]
  rfl

/-- A new leader one of whose peers holds a request carries such a request out. -/
theorem takeOver_of_pending (me : PeerId) {s : MembershipService Client} {peers : Peers Client}
    {p : PeerId}
    (mem : p ∈ (s.reconnect peers).alivePeers)
    (held : (peers.pendingRequest p).operationType ≠ .NOTHING) :
    ∃ q ∈ (s.reconnect peers).alivePeers, (peers.pendingRequest q).operationType ≠ .NOTHING ∧
      let m := peers.pendingRequest q
      s.takeOver me peers =
        ((s.reconnect peers).modifyGroupMembership me peers m.peerId m.operationType).map fun r =>
          { service := { r.1 with leaderPeerId := me }
            operations := [(m.peerId, m.operationType)]
            sent := r.2 } := by
  have key : ∀ q ∈ (s.reconnect peers).alivePeers,
      ((s.reconnect peers).tcpClientMap q).isSome = true := fun q hq =>
    Option.isSome_iff_ne_none.mpr (connected_reconnect s peers q hq)
  rcases waitForPendingRequestMsg_cases (s.reconnect peers) peers with
    ⟨_, none⟩ | ⟨q, memQ, _, heldQ, found⟩
  · exact (held (none p mem (key p mem))).elim
  · refine ⟨q, memQ, heldQ, ?_⟩
    unfold takeOver
    dsimp only
    rw [found, if_pos heldQ]
    cases (s.reconnect peers).modifyGroupMembership me peers (peers.pendingRequest q).peerId
      (peers.pendingRequest q).operationType <;> rfl

end MembershipService

end GroupComm.Lab2
