import GroupComm.Lab2.Takeover

/-!
# The pending request of a crashed leader

A leader crashes after its request has reached some of the surviving members, before any of
them has received the new view that ends the operation.  The new leader asks the others for
the request they hold and carries it out.  It does not look at the one it holds itself, and
an added peer is sent the new view on a connection that nothing has opened.  The crashed
leader may itself have taken over and have been completing the request of an earlier one: the
others then hold that request for the same operation, and it serves the new leader as well.

* `request_carried_out_iff`: when exactly the operation is carried out.
* `request_lost_at_new_leader`: the request is lost when only the new leader holds it.
-/

namespace GroupComm.Lab2

namespace MembershipService

variable {Client : Type} {me : PeerId} {survivors received : OrderedSet PeerId}
  {requestMsg : RequestMsg} {connect : PeerId → Option Client}
  {before : PeerId → MembershipService Client}

/-- The state of a survivor when the leader has crashed.  `before` is its state without this
request, or once the new view has ended the operation. -/
def afterRequest (requestMsg : RequestMsg) (received : OrderedSet PeerId)
    (before : PeerId → MembershipService Client) (p : PeerId) : MembershipService Client :=
  if p ∈ received then (before p).processRequestMsg requestMsg else before p

/-- A leader has crashed, its request for an operation has been received by some of the
survivors, and `me` is the survivor they elect. -/
structure RequestPending (me : PeerId) (survivors received : OrderedSet PeerId)
    (requestMsg : RequestMsg) (connect : PeerId → Option Client)
    (before : PeerId → MembershipService Client) : Prop where
  operation : requestMsg.operationType = .ADD ∨ requestMsg.operationType = .DEL
  survives : me ∈ survivors
  elected : nextLeader me survivors = me
  /-- The survivors are the members of the new leader's view that it can connect to. -/
  members : ∀ p, p ∈ survivors ↔
    p = me ∨ p ∈ (before me).alivePeers ∧ p ≠ (before me).leaderPeerId ∧ connect p ≠ none
  notItself : me ∉ (before me).alivePeers
  within : ∀ p ∈ received, p ∈ survivors
  someone : ∃ p, p ∈ received
  /-- What a survivor holds already is a request for this operation. -/
  noOther : ∀ p ∈ survivors, (before p).pendingRequest.operationType ≠ .NOTHING →
    (before p).pendingRequest.operationType = requestMsg.operationType ∧
      (before p).pendingRequest.peerId = requestMsg.peerId

/-- The takeover goes through to the point where the new leader accepts peers, with this
operation carried out on the way. -/
def CarriesOut (me : PeerId) (received : OrderedSet PeerId) (requestMsg : RequestMsg)
    (connect : PeerId → Option Client) (before : PeerId → MembershipService Client) : Prop :=
  ∃ t, (afterRequest requestMsg received before me).takeOver me
      (answersOf connect (afterRequest requestMsg received before)) = some t ∧
    (requestMsg.peerId, requestMsg.operationType) ∈ t.operations

theorem afterRequest_view (requestMsg : RequestMsg) (received : OrderedSet PeerId)
    (before : PeerId → MembershipService Client) (p : PeerId) :
    (afterRequest requestMsg received before p).alivePeers = (before p).alivePeers ∧
      (afterRequest requestMsg received before p).leaderPeerId = (before p).leaderPeerId := by
  unfold afterRequest processRequestMsg
  split <;> exact ⟨rfl, rfl⟩

/-- What a survivor sends to the new leader. -/
theorem pendingRequest_of_answersOf (requestMsg : RequestMsg) (received : OrderedSet PeerId)
    (connect : PeerId → Option Client) (before : PeerId → MembershipService Client) (p : PeerId) :
    let answer := (answersOf connect (afterRequest requestMsg received before)).pendingRequest p
    (p ∈ received → answer.operationType = requestMsg.operationType ∧
      answer.peerId = requestMsg.peerId) ∧
    (p ∉ received → answer.operationType = (before p).pendingRequest.operationType ∧
      answer.peerId = (before p).pendingRequest.peerId) := by
  unfold answersOf afterRequest createPendingRequestMsg processRequestMsg
  dsimp only
  constructor
  · intro has
    rw [if_pos has]
    exact ⟨rfl, rfl⟩
  · intro hasNot
    rw [if_neg hasNot]
    exact ⟨rfl, rfl⟩

theorem answer_requestId (σ : PeerId → MembershipService Client) (p : PeerId) (m : RequestMsg) :
    ((answersOf connect σ).answer p m).requestId = m.requestId :=
  rfl

namespace RequestPending

/-- The peers of the new leader once it has reconnected are the other survivors. -/
theorem alivePeers_reconnect (h : RequestPending me survivors received requestMsg connect before)
    (p : PeerId) :
    p ∈ ((afterRequest requestMsg received before me).reconnect
        (answersOf connect (afterRequest requestMsg received before))).alivePeers ↔
      p ∈ survivors ∧ p ≠ me := by
  have spec := (reconnect_spec (afterRequest requestMsg received before me)
    (answersOf connect (afterRequest requestMsg received before))).1 p
  obtain ⟨sameAlive, sameLeader⟩ :=
    afterRequest_view requestMsg received before me
  rw [sameAlive, sameLeader] at spec
  rw [spec, h.members]
  constructor
  · intro peer
    refine ⟨Or.inr peer, ?_⟩
    rintro rfl
    exact h.notItself peer.1
  · rintro ⟨self | peer, apart⟩
    · exact (apart self).elim
    · exact peer

theorem operationType_ne (h : RequestPending me survivors received requestMsg connect before) :
    requestMsg.operationType ≠ .NOTHING := by
  rcases h.operation with add | del
  · rw [add]
    decide
  · rw [del]
    decide

/-- A survivor answers the new leader with a request exactly when it holds one. -/
theorem answer_ne_nothing_iff
    (h : RequestPending me survivors received requestMsg connect before) (p : PeerId) :
    ((answersOf connect (afterRequest requestMsg received before)).pendingRequest
        p).operationType ≠ .NOTHING ↔
      p ∈ received ∨ (before p).pendingRequest.operationType ≠ .NOTHING := by
  obtain ⟨ofHas, ofHasNot⟩ :=
    pendingRequest_of_answersOf requestMsg received connect before p
  by_cases has : p ∈ received
  · rw [(ofHas has).1]
    exact iff_of_true h.operationType_ne (Or.inl has)
  · rw [(ofHasNot has).1, or_iff_right has]

/-- A request that a survivor answers with is for the operation of the crashed leader. -/
theorem answer_same (h : RequestPending me survivors received requestMsg connect before)
    {p : PeerId} (survivor : p ∈ survivors) :
    let answer := (answersOf connect (afterRequest requestMsg received before)).pendingRequest p
    answer.operationType ≠ .NOTHING →
      answer.operationType = requestMsg.operationType ∧ answer.peerId = requestMsg.peerId := by
  intro answer held
  obtain ⟨ofHas, ofHasNot⟩ :=
    pendingRequest_of_answersOf requestMsg received connect before p
  by_cases has : p ∈ received
  · exact ofHas has
  · obtain ⟨sameOperation, samePeer⟩ := ofHasNot has
    have earlier : (before p).pendingRequest.operationType ≠ .NOTHING := by
      rw [← sameOperation]
      exact held
    obtain ⟨operation, peer⟩ := h.noOther p survivor earlier
    exact ⟨sameOperation.trans operation, samePeer.trans peer⟩

/-- A request that no survivor but the new leader holds is not carried out. -/
theorem not_carriesOut_of_alone
    (h : RequestPending me survivors received requestMsg connect before)
    (alone : ∀ p ∈ survivors, p ≠ me →
      ¬(p ∈ received ∨ (before p).pendingRequest.operationType ≠ .NOTHING)) :
    ¬ CarriesOut me received requestMsg connect before := by
  rintro ⟨t, taken, done⟩
  have nothing : ∀ p ∈ ((afterRequest requestMsg received before me).reconnect
      (answersOf connect (afterRequest requestMsg received before))).alivePeers,
      ((answersOf connect (afterRequest requestMsg received before)).pendingRequest
        p).operationType = .NOTHING := by
    intro p mem
    obtain ⟨survivor, apart⟩ := (h.alivePeers_reconnect p).mp mem
    exact not_not.mp (mt (h.answer_ne_nothing_iff p).mp (alone p survivor apart))
  rw [takeOver_of_none nothing] at taken
  cases taken
  cases done

/-- A request that another survivor holds is the one that the new leader modifies the group
with. -/
theorem takeOver_eq (h : RequestPending me survivors received requestMsg connect before)
    (other : ∃ p ∈ survivors, p ≠ me ∧
      (p ∈ received ∨ (before p).pendingRequest.operationType ≠ .NOTHING)) :
    let σ := afterRequest requestMsg received before
    let peers := answersOf connect σ
    (σ me).takeOver me peers =
      (((σ me).reconnect peers).modifyGroupMembership me peers requestMsg.peerId
        requestMsg.operationType).map fun r =>
          { service := { r.1 with leaderPeerId := me }
            operations := [(requestMsg.peerId, requestMsg.operationType)]
            sent := r.2 } := by
  intro σ peers
  obtain ⟨p, survivor, apart, holds⟩ := other
  have mem := (h.alivePeers_reconnect p).mpr ⟨survivor, apart⟩
  have held := (h.answer_ne_nothing_iff p).mpr holds
  -- which of the others is asked last does not matter: all of them hold the same operation
  obtain ⟨q, memQ, heldQ, taken⟩ := takeOver_of_pending me mem held
  obtain ⟨sameOperation, samePeer⟩ :=
    h.answer_same ((h.alivePeers_reconnect q).mp memQ).1 heldQ
  rw [← sameOperation, ← samePeer]
  exact taken

end RequestPending

/-- **Completion of a pending request.**  The new leader carries the operation of its crashed
predecessor out exactly when another survivor holds a request for it and, for an addition, the
peer to be added is itself one of the other survivors. -/
theorem request_carried_out_iff
    (h : RequestPending me survivors received requestMsg connect before) :
    CarriesOut me received requestMsg connect before ↔
      (∃ p ∈ survivors, p ≠ me ∧
        (p ∈ received ∨ (before p).pendingRequest.operationType ≠ .NOTHING)) ∧
        (requestMsg.operationType = .ADD →
          requestMsg.peerId ∈ survivors ∧ requestMsg.peerId ≠ me) := by
  have connected := connected_reconnect (afterRequest requestMsg received before me)
    (answersOf connect (afterRequest requestMsg received before))
  have keys := (reconnect_spec (afterRequest requestMsg received before me)
    (answersOf connect (afterRequest requestMsg received before))).2.1
  constructor
  · intro carried
    have other : ∃ p ∈ survivors, p ≠ me ∧
        (p ∈ received ∨ (before p).pendingRequest.operationType ≠ .NOTHING) := by
      by_contra none
      exact h.not_carriesOut_of_alone
        (fun p survivor apart holds => none ⟨p, survivor, apart, holds⟩) carried
    refine ⟨other, fun add => ?_⟩
    rw [← h.alivePeers_reconnect, ← keys]
    intro missing
    obtain ⟨t, taken, _⟩ := carried
    rw [h.takeOver_eq other, add, modifyGroupMembership_eq_none _ missing] at taken
    cases taken
  · rintro ⟨other, joins⟩
    have key : requestMsg.operationType = .ADD →
        ((afterRequest requestMsg received before me).reconnect
          (answersOf connect (afterRequest requestMsg received before))).tcpClientMap
            requestMsg.peerId ≠ none := by
      intro add
      rw [keys, h.alivePeers_reconnect]
      exact joins add
    have modified := modifyGroupMembership_eq_some me connected
      (@answer_requestId Client connect (afterRequest requestMsg received before)) key
    refine ⟨_, (h.takeOver_eq other).trans (congrArg _ modified), ?_⟩
    exact List.mem_singleton.mpr rfl

/-! ## A group of four that loses its leader

Peer 1 has sent the request to delete peer 4 to peer 2 when it crashes; peer 3 has not
received it. -/

def deletePeer4 : RequestMsg where
  msgType := MsgTypeEnum.REQUEST.code
  requestId := 5
  currentViewId := 4
  operationType := .DEL
  peerId := 4

/-- The survivors of the group of peers 1 to 4, all of which have installed view 4. -/
def memberOfFour (p : PeerId) : MembershipService Unit :=
  { viewId := 4, alivePeers := (OrderedSet.ofList [1, 2, 3, 4]).erase p }

def connectTwoThree (p : PeerId) : Option Unit :=
  if p = 2 ∨ p = 3 then some () else none

theorem requestPending_deletePeer4 (received : OrderedSet PeerId)
    (within : ∀ p ∈ received, p ∈ OrderedSet.ofList [2, 3]) (someone : ∃ p, p ∈ received) :
    RequestPending 2 (OrderedSet.ofList [2, 3]) received deletePeer4 connectTwoThree
      memberOfFour where
  operation := Or.inr rfl
  survives := by decide
  elected := by decide
  members p := by
    have bounded : ∀ q ∈ [1, 2, 3, 4],
        q ∈ OrderedSet.ofList [2, 3] ↔ q = 2 ∨ q ∈ (memberOfFour 2).alivePeers ∧
          q ≠ (memberOfFour 2).leaderPeerId ∧ connectTwoThree q ≠ none := by
      intro q mem
      simp only [List.mem_cons, List.not_mem_nil, or_false] at mem
      rcases mem with rfl | rfl | rfl | rfl <;> decide
    by_cases known : p ∈ [1, 2, 3, 4]
    · exact bounded p known
    · simp only [List.mem_cons, List.not_mem_nil, or_false, not_or] at known
      obtain ⟨_, not2, not3, _⟩ := known
      simp [OrderedSet.mem_ofList, not2, not3, connectTwoThree]
  notItself := by decide
  within := within
  someone := someone
  noOther p _ held := absurd rfl held

theorem request_carried_out_twoHolders :
    CarriesOut 2 (OrderedSet.ofList [2, 3]) deletePeer4 connectTwoThree memberOfFour :=
  (request_carried_out_iff
    (requestPending_deletePeer4 _ (fun _ mem => mem) ⟨2, by decide⟩)).mpr (by decide)

/-- **A lost request.**  Peer 2 holds the request, is elected, and does not carry it out. -/
theorem request_lost_at_new_leader :
    ¬ ∀ (me : PeerId) (survivors received : OrderedSet PeerId) (requestMsg : RequestMsg)
      (connect : PeerId → Option Unit) (before : PeerId → MembershipService Unit),
      RequestPending me survivors received requestMsg connect before →
        CarriesOut me received requestMsg connect before := by
  intro always
  have alone : ∀ p ∈ OrderedSet.ofList [(2 : PeerId)], p = 2 := by
    intro p mem
    rwa [OrderedSet.mem_ofList, List.mem_singleton] at mem
  have within : ∀ p ∈ OrderedSet.ofList [(2 : PeerId)], p ∈ OrderedSet.ofList [2, 3] := by
    intro p mem
    rw [alone p mem]
    decide
  have pending := requestPending_deletePeer4 (OrderedSet.ofList [2]) within ⟨2, by decide⟩
  have carried := always _ _ _ _ _ _ pending
  refine pending.not_carriesOut_of_alone ?_ carried
  rintro p - apart (has | held)
  · exact apart (alone p has)
  · exact held rfl

end MembershipService

end GroupComm.Lab2
