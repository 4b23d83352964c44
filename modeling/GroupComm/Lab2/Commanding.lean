import GroupComm.Lab2.Outlook

/-!
# What a leader has outstanding

A peer holds the request of an operation from the moment at which it is sent until the new view
reaches it.  A new leader that completes the request of its predecessor makes a message of its own
for it, and some of the peers hold the one and some the other.

* `RequestMsg.Same` is what two requests have in common then; with `exact` they are one message.
* `Process.Commanding` is what a leader keeps by itself, and `Process.Carries` what a step in which
  it sends nothing does to what is outstanding.
-/

namespace GroupComm.Lab2

open MembershipService World Transition Process

/-! ## One request -/

/-- The same operation; the same message where nobody completes a request of another one. -/
def RequestMsg.Same (exact : Prop) (r m : RequestMsg) : Prop :=
  m.operationType = r.operationType ∧ m.peerId = r.peerId ∧ (exact → m = r)

/-- A follower holds no request, or request `r`. -/
def Held.Fits (exact : Prop) (r : RequestMsg) (me : PeerId) (held : Held) : Prop :=
  held.pendingRequest ≠ getDummyPendingRequestMsg →
    held.pendingRequest.operationType ≠ .NOTHING ∧ r.Same exact held.pendingRequest ∧
      (r.operationType = .DEL → r.peerId ≠ me) ∧ (exact → held.viewId = r.currentViewId)

/-- What `createPendingRequestMsg` makes of it. -/
def Held.answer (held : Held) : RequestMsg :=
  { held.pendingRequest with currentViewId := held.viewId }

section

variable {exact : Prop} {r m m' : RequestMsg} {me : PeerId} {held : Held}

theorem RequestMsg.Same.refl : r.Same exact r :=
  ⟨rfl, rfl, fun _ => rfl⟩

theorem RequestMsg.Same.join (same : r.Same exact m) (same' : r.Same exact m') :
    m.Same exact m' := by
  obtain ⟨operationType, peerId, equal⟩ := same
  obtain ⟨operationType', peerId', equal'⟩ := same'
  exact ⟨operationType'.trans operationType.symm, peerId'.trans peerId.symm,
    fun isExact => (equal' isExact).trans (equal isExact).symm⟩

/-- The answer of a follower is no request, or the one that it holds. -/
theorem Held.Fits.answer (fits : held.Fits exact r me)
    (something : held.answer.operationType ≠ .NOTHING) : r.Same exact held.answer := by
  obtain ⟨_, ⟨operationType, peerId, equal⟩, _, viewId⟩ := fits fun dummy => something (by
    change held.pendingRequest.operationType = _
    rw [dummy]
    rfl)
  refine ⟨operationType, peerId, fun isExact => ?_⟩
  unfold Held.answer
  rw [equal isExact, viewId isExact]

/-- A request for the same operation takes the place of `r`. -/
theorem Held.Fits.rename (fits : held.Fits exact r me) (loose : ¬ exact)
    (operationType : m.operationType = r.operationType) (peerId : m.peerId = r.peerId) :
    held.Fits exact m me := by
  intro something
  obtain ⟨isRequest, ⟨operationType', peerId', _⟩, apart, _⟩ := fits something
  refine ⟨isRequest, ⟨operationType'.trans operationType.symm, peerId'.trans peerId.symm,
    fun isExact => absurd isExact loose⟩, fun deletes => ?_, fun isExact => absurd isExact loose⟩
  rw [peerId]
  exact apart (operationType.symm.trans deletes)

end

/-! ## What the leader keeps -/

/-- The peer holds the request of this operation, or will hold it; it may hold it from before when
the operation `completes` the request of another leader. -/
def Operation.requested (completes : Bool) (operation : Operation) (p : PeerId) : Bool :=
  match operation with
  | .call _ _ => completes
  | .lock _ => completes
  | .sendRequestMsg _ rest => completes || decide (p ∉ rest)
  | .waitForOkMsg _ _ => true
  | operation => operation.owesView p

theorem Operation.requested_of_owesView {completes : Bool} {operation : Operation} {p : PeerId}
    (owes : operation.owesView p = true) : operation.requested completes p = true := by
  cases operation with
  | call => cases owes
  | lock => cases owes
  | sendRequestMsg => cases owes
  | waitForOkMsg => cases owes
  | printNewlyInstalledView => rfl
  | sendNewViewMsg => rfl
  | lockView => rfl
  | deliver => exact owes

namespace Process

/-- A new leader completes what its predecessor has left. -/
def completes (pr : Process) : Bool :=
  match pr.main with
  | .completeRequest _ => true
  | _ => false

def Outstanding (pr : Process) (p : PeerId) : Prop :=
  ∃ t operation, pr.operation t = some operation ∧ operation.requested pr.completes p = true

/-- What an operation of the leader has to do with request `r`, the one that its followers hold. -/
def Asks (exact : Prop) (r : RequestMsg) (pr : Process) : Operation → Prop
  | .call peerId operationType => operationType ≠ .NOTHING ∧
      (pr.completes = true → ¬ exact ∧ operationType = r.operationType ∧ peerId = r.peerId)
  | .lock m => m.operationType ≠ .NOTHING ∧ m.currentViewId = pr.service.viewId ∧
      (pr.completes = true → ¬ exact ∧ m.operationType = r.operationType ∧ m.peerId = r.peerId)
  | .sendRequestMsg m _ => m = r ∧ r.operationType ≠ .NOTHING ∧
      r.currentViewId = pr.service.viewId ∧
        (r.operationType = .DEL → r.peerId ∉ pr.service.alivePeers)
  | _ => True

structure Commanding (exact : Prop) (r : RequestMsg) (pr : Process) : Prop where
  rules : pr.main.rules = true
  steady : pr.Steady
  asks : ∀ t operation, pr.operation t = some operation → pr.Asks exact r operation

/-- A step in which the leader sends nothing: whoever holds the request is still to be sent the
view, and whoever is not has been up to date before. -/
structure Carries (exact : Prop) (r : RequestMsg) (pr next : Process) : Prop where
  asks : ∀ p k, p ∈ pr.service.alivePeers → pr.service.tcpClientMap p = some k →
    (r.operationType = .DEL → r.peerId ≠ p) → pr.Outstanding p → p ∈ next.service.alivePeers ∧
      next.service.tcpClientMap p = some k ∧ next.Outstanding p
  tells : exact → ∀ p k, p ∈ next.service.alivePeers → next.service.tcpClientMap p = some k →
    next.owesView p = false → p ∈ pr.service.alivePeers ∧ pr.service.tcpClientMap p = some k ∧
      pr.owesView p = false ∧ next.service.viewId = pr.service.viewId

variable {exact : Prop} {r : RequestMsg} {pr next data : Process} {t : Thread}
  {operation onward : Operation}

theorem asks_congr (asks : pr.Asks exact r operation) (completes : next.completes = pr.completes)
    (viewId : next.service.viewId = pr.service.viewId)
    (alivePeers : next.service.alivePeers = pr.service.alivePeers) :
    next.Asks exact r operation := by
  unfold Asks at asks ⊢
  rw [completes, viewId, alivePeers]
  exact asks

theorem completes_of_main (main : next.main = pr.main) : next.completes = pr.completes := by
  unfold completes
  rw [main]

theorem completes_setOperation (place : pr.operation t = some operation)
    (main : data.main = pr.main) : (data.setOperation onward t).completes = pr.completes := by
  rcases Process.operation_cases place with ⟨rfl, here⟩ | ⟨rfl, here⟩ | ⟨rfl, _⟩
  · rw [setOperation_addPeer (main.trans here)]
    unfold completes
    rw [here]
  · rw [setOperation_completeRequest (main.trans here)]
    unfold completes
    rw [here]
  · exact completes_of_main main

theorem rules_finishOperation (rules : pr.main.rules = true) :
    (pr.finishOperation t).main.rules = true := by
  rcases main_finishOperation pr t with same | other
  · rw [same]
    exact rules
  · rw [other]
    rfl

theorem Steady.requested_of_outstanding (steady : pr.Steady)
    (place : pr.operation t = some operation) {p : PeerId} (outstanding : pr.Outstanding p) :
    operation.requested pr.completes p = true := by
  obtain ⟨t', operation', place', requested⟩ := outstanding
  by_cases same : t' = t
  · rw [same, place] at place'
    cases place'
    exact requested
  · rw [Thread.eq_other same, steady.alone place] at place'
    cases place'

theorem not_outstanding_of_idle (idle : ∀ t, pr.operation t = none) {p : PeerId} :
    ¬ pr.Outstanding p := by
  rintro ⟨t, operation, place, _⟩
  rw [idle] at place
  cases place

/-- A thread goes on in `modifyGroupMembership`. -/
theorem Commanding.setOperation {m : RequestMsg} (h : pr.Commanding exact r)
    (place : pr.operation t = some operation) (steady : (data.setOperation onward t).Steady)
    (main : data.main = pr.main) (detector : data.detector = pr.detector)
    (asks : (data.setOperation onward t).Asks exact m onward) :
    (data.setOperation onward t).Commanding exact m := by
  refine ⟨rules_setOperation (by rw [main]; exact h.rules), steady, fun t' operation' here => ?_⟩
  rw [operation_setOperation place main detector] at here
  split at here
  · cases here
    exact asks
  · rename_i other
    rw [Thread.eq_other other, h.steady.alone place] at here
    cases here

/-- No thread begins an operation. -/
theorem Commanding.of_main (h : pr.Commanding exact r) (steady : next.Steady)
    (rules : next.main.rules = true)
    (operations : ∀ t operation, next.operation t = some operation →
      pr.operation t = some operation ∧ next.completes = pr.completes)
    (viewId : next.service.viewId = pr.service.viewId)
    (alivePeers : next.service.alivePeers = pr.service.alivePeers) :
    next.Commanding exact r := by
  refine ⟨rules, steady, fun t operation here => ?_⟩
  obtain ⟨before, completes⟩ := operations t operation here
  exact asks_congr (h.asks t operation before) completes viewId alivePeers

/-- What a step in `modifyGroupMembership` carries on. -/
theorem Commanding.carries (h : pr.Commanding exact r) (place : pr.operation t = some operation)
    (main : data.main = pr.main) (detector : data.detector = pr.detector)
    (asks : ∀ p k, p ∈ pr.service.alivePeers → pr.service.tcpClientMap p = some k →
      (r.operationType = .DEL → r.peerId ≠ p) → operation.requested pr.completes p = true →
        p ∈ data.service.alivePeers ∧ data.service.tcpClientMap p = some k ∧
          onward.requested pr.completes p = true)
    (tells : exact → ∀ p k, p ∈ data.service.alivePeers → data.service.tcpClientMap p = some k →
      onward.owesView p = false → p ∈ pr.service.alivePeers ∧
        pr.service.tcpClientMap p = some k ∧ operation.owesView p = false ∧
          data.service.viewId = pr.service.viewId) :
    pr.Carries exact r (data.setOperation onward t) := by
  refine ⟨fun p k mem found apart outstanding => ?_, fun isExact p k mem found told => ?_⟩
  · obtain ⟨kept, same, requested⟩ :=
      asks p k mem found apart (h.steady.requested_of_outstanding place outstanding)
    rw [service_setOperation]
    refine ⟨kept, same, t, onward, ?_, ?_⟩
    · rw [operation_setOperation place main detector, if_pos rfl]
    · rw [completes_setOperation place main]
      exact requested
  · rw [service_setOperation] at mem found ⊢
    rw [h.steady.owesView_setOperation place data main detector] at told
    obtain ⟨before, same, owed, viewId⟩ := tells isExact p k mem found told
    exact ⟨before, same, (owesView_of_place h.steady place p).trans owed, viewId⟩

/-- A step that only moves a thread. -/
theorem Commanding.carries_on (h : pr.Commanding exact r) (place : pr.operation t = some operation)
    (main : data.main = pr.main) (detector : data.detector = pr.detector)
    (alivePeers : data.service.alivePeers = pr.service.alivePeers)
    (tcpClientMap : data.service.tcpClientMap = pr.service.tcpClientMap)
    (viewId : data.service.viewId = pr.service.viewId)
    (asks : ∀ p ∈ pr.service.alivePeers, operation.requested pr.completes p = true →
      onward.requested pr.completes p = true)
    (tells : ∀ p ∈ pr.service.alivePeers, onward.owesView p = false →
      operation.owesView p = false) :
    pr.Carries exact r (data.setOperation onward t) := by
  refine h.carries place main detector (fun p k mem found _ requested => ?_)
    fun _ p k mem found told => ?_
  · rw [alivePeers, tcpClientMap]
    exact ⟨mem, found, asks p mem requested⟩
  · rw [alivePeers] at mem
    rw [tcpClientMap] at found
    exact ⟨mem, found, tells p mem told, viewId⟩

/-- A step outside `modifyGroupMembership`. -/
theorem Carries.of_main (outstanding : ∀ p, pr.Outstanding p → next.Outstanding p)
    (owes : ∀ p, next.owesView p = false → pr.owesView p = false)
    (viewId : next.service.viewId = pr.service.viewId)
    (alivePeers : next.service.alivePeers = pr.service.alivePeers)
    (keeps : ∀ p k, pr.service.tcpClientMap p = some k → next.service.tcpClientMap p = some k)
    (finds : exact → ∀ p ∈ pr.service.alivePeers, ∀ k, next.service.tcpClientMap p = some k →
      pr.service.tcpClientMap p = some k) : pr.Carries exact r next := by
  refine ⟨fun p k mem found _ here => ?_, fun isExact p k mem found told => ?_⟩
  · rw [alivePeers]
    exact ⟨mem, keeps p k found, outstanding p here⟩
  · rw [alivePeers] at mem
    exact ⟨mem, finds isExact p mem k found, owes p told, viewId⟩

theorem Commanding.finishOperation (h : pr.Commanding exact r)
    (place : pr.operation t = some operation) : (pr.finishOperation t).Commanding exact r := by
  refine ⟨rules_finishOperation h.rules, h.steady.finishOperation place,
    fun t' operation' here => ?_⟩
  rw [operation_finishOperation place] at here
  split at here
  · cases here
  · rename_i other
    rw [Thread.eq_other other, h.steady.alone place] at here
    cases here

end Process

/-- Whoever rules does not connect. -/
theorem ThreadStep.not_connected {pr next : Process} {t : Thread} {p : PeerId} {k : Socket}
    (step : ThreadStep pr t (.connected p k) next) (rules : pr.main.rules = true) : False := by
  have elsewhere {place : MainState} (here : pr.main = place) (other : place.rules = false) :
      False := by
    rw [here, other] at rules
    cases rules
  cases step with
  | dies fatal => cases fatal
  | leaderFound here _ => exact elsewhere here rfl
  | reconnect here => exact elsewhere here rfl

/-- **What the leader keeps**, handling one change at a time. -/
theorem ThreadStep.commanding {exact : Prop} {r : RequestMsg} {pr next : Process} {t : Thread}
    {label : Label} (step : ThreadStep pr t label next) (h : pr.Commanding exact r)
    (running : next.running = true)
    (alone : ∀ close k p, label = .accepted close k p → pr.detector = none) :
    next.Commanding exact r ∨
      ∃ m, pr.operation t = some (.lock m) ∧ next.Commanding exact m := by
  have steady : next.Steady := by
    apply step.steady h.steady
    rintro (⟨k, p, rfl⟩ | ⟨close, k, p, accepted⟩)
    · exact (step.not_connected h.rules).elim
    · exact alone close k p accepted
  have elsewhere {place : MainState} (here : pr.main = place) (other : place.rules = false) :
      False := by
    have rules := h.rules
    rw [here, other] at rules
    cases rules
  cases step with
  | dies _ => cases running
  | @call t peerId operationType place =>
      left
      obtain ⟨something, completes⟩ := h.asks _ _ place
      refine h.setOperation place steady rfl rfl ⟨something, ?_, ?_⟩
      · rw [service_setOperation]
        rfl
      · rw [completes_setOperation place (by rfl)]
        exact completes
  | @lock t m place free =>
      right
      obtain ⟨something, viewId, _⟩ := h.asks _ _ place
      refine ⟨m, place, h.setOperation place steady rfl rfl ⟨rfl, something, ?_, fun deletes => ?_⟩⟩
      · rw [service_setOperation, viewId]
        change _ = (if m.operationType = .DEL then _ else _ : MembershipService Socket).viewId
        split <;> rfl
      · rw [service_setOperation]
        change m.peerId ∉ (if m.operationType = .DEL then _ else _ :
          MembershipService Socket).alivePeers
        rw [if_pos deletes]
        exact fun mem => (OrderedSet.mem_erase.mp mem).2 rfl
  | sendRequestMsg place found =>
      left
      obtain ⟨isRequest, something, viewId, deleted⟩ := h.asks _ _ place
      refine h.setOperation place steady rfl rfl ⟨isRequest, something, ?_, ?_⟩
      · rw [service_setOperation]
        exact viewId
      · rw [service_setOperation]
        exact deleted
  | requestsSent place => exact Or.inl (h.setOperation place steady rfl rfl trivial)
  | waitForOkMsg place found expected =>
      exact Or.inl (h.setOperation place steady rfl rfl trivial)
  | newView place => exact Or.inl (h.setOperation place steady rfl rfl trivial)
  | printNewlyInstalledView place free =>
      exact Or.inl (h.setOperation place steady rfl rfl trivial)
  | sendNewViewMsg place => exact Or.inl (h.setOperation place steady rfl rfl trivial)
  | lockView place free => exact Or.inl (h.setOperation place steady rfl rfl trivial)
  | deliver place found => exact Or.inl (h.setOperation place steady rfl rfl trivial)
  | delivered place => exact Or.inl (h.finishOperation place)
  | startAsLeader place free =>
      left
      refine h.of_main steady rfl (fun t operation here => ?_) rfl rfl
      cases t with
      | main => cases here
      | detector =>
          refine ⟨here, ?_⟩
          unfold Process.completes
          rw [place]
  | accept place =>
      left
      refine ⟨rfl, steady, fun t operation here => ?_⟩
      cases t with
      | main =>
          cases here
          exact ⟨(fun same => by cases same), fun completes => by cases completes⟩
      | detector =>
          change pr.detector = _ at here
          rw [alone _ _ _ rfl] at here
          cases here
  | skipMyself place => exact (elsewhere place rfl).elim
  | leaderFound place _ => exact (elsewhere place rfl).elim
  | noLeaderThere place _ => exact (elsewhere place rfl).elim
  | noLeaderFound place => exact (elsewhere place rfl).elim
  | followerReceives place _ _ => exact (elsewhere place rfl).elim
  | leaderLost place _ => exact (elsewhere place rfl).elim
  | sendOkMsg place _ => exact (elsewhere place rfl).elim
  | okMsgFailed place _ => exact (elsewhere place rfl).elim
  | waitForLeaderCrash place _ => exact (elsewhere place rfl).elim
  | handleLeaderCrash place _ => exact (elsewhere place rfl).elim
  | reconnect place => exact (elsewhere place rfl).elim
  | unreachable place => exact (elsewhere place rfl).elim
  | reconnected place => exact (elsewhere place rfl).elim
  | introduce place => exact (elsewhere place rfl).elim
  | introduceFailed place => exact (elsewhere place rfl).elim
  | pendingRequest place _ => exact (elsewhere place rfl).elim
  | notConnected place _ => exact (elsewhere place rfl).elim
  | completeRequest place _ => exact (elsewhere place rfl).elim
  | nothingPending place _ => exact (elsewhere place rfl).elim
  | waitForNewLeaderMsg place => exact (elsewhere place rfl).elim
  | greet place => exact (elsewhere place rfl).elim
  | sendPendingRequestMsg place _ => exact (elsewhere place rfl).elim

/-- A leader that sends nothing changes nothing for its followers. -/
theorem ThreadStep.carries {exact : Prop} {r : RequestMsg} {pr next : Process} {t : Thread}
    {label : Label} (step : ThreadStep pr t label next) (h : pr.Commanding exact r)
    (running : next.running = true) (notSent : ∀ k m, label ≠ .sent k m)
    (alone : ∀ close k p, label = .accepted close k p → pr.detector = none)
    (connected : exact → pr.main = .accept → pr.service.Connected) :
    pr.Carries exact r next := by
  have elsewhere {place : MainState} (here : pr.main = place) (other : place.rules = false) :
      False := by
    have rules := h.rules
    rw [here, other] at rules
    cases rules
  cases step with
  | dies _ => cases running
  | call place =>
      exact h.carries_on place rfl rfl rfl rfl rfl (fun _ _ completes => completes) fun _ _ _ => rfl
  | @lock t m place free =>
      obtain ⟨_, _, completes⟩ := h.asks _ _ place
      refine h.carries place rfl rfl (fun p k mem found apart requested => ?_)
        fun _ p k mem found _ => ?_
      · obtain ⟨_, operationType, peerId⟩ := completes requested
        refine ⟨?_, ?_, ?_⟩
        · change p ∈ (if m.operationType = .DEL then _ else _ :
            MembershipService Socket).alivePeers
          split
          · rename_i deletes
            rw [peerId]
            exact OrderedSet.mem_erase.mpr
              ⟨mem, (apart (operationType.symm.trans deletes)).symm⟩
          · exact mem
        · change (if m.operationType = .DEL then _ else _ :
            MembershipService Socket).tcpClientMap p = _
          split
          · rename_i deletes
            change Function.update pr.service.tcpClientMap m.peerId none p = _
            rw [peerId, Function.update_of_ne (apart (operationType.symm.trans deletes)).symm]
            exact found
          · exact found
        · rw [show pr.completes = true from requested]
          rfl
      · change p ∈ (if m.operationType = .DEL then _ else _ :
          MembershipService Socket).alivePeers at mem
        change (if m.operationType = .DEL then _ else _ :
          MembershipService Socket).tcpClientMap p = _ at found
        change _ ∧ _ ∧ _ ∧ (if m.operationType = .DEL then _ else _ :
          MembershipService Socket).viewId = _
        split at mem
        · rename_i deletes
          obtain ⟨before, other⟩ := OrderedSet.mem_erase.mp mem
          rw [if_pos deletes] at found ⊢
          exact ⟨before, (Function.update_of_ne other _ _).symm.trans found, rfl, rfl⟩
        · rename_i adds
          rw [if_neg adds] at found ⊢
          exact ⟨mem, found, rfl, rfl⟩
  | sendRequestMsg place found => exact absurd rfl (notSent _ _)
  | requestsSent place =>
      exact h.carries_on place rfl rfl rfl rfl rfl (fun _ _ _ => rfl) fun _ _ _ => rfl
  | waitForOkMsg place found expected =>
      exact h.carries_on place rfl rfl rfl rfl rfl (fun _ _ _ => rfl) fun _ _ _ => rfl
  | @newView t m place =>
      refine h.carries place rfl rfl (fun p k mem found _ _ => ⟨?_, found, rfl⟩)
        fun _ _ _ _ _ told => by cases told
      change p ∈ (if m.operationType = .ADD then _ else _)
      split
      · exact OrderedSet.mem_insert.mpr (Or.inr mem)
      · exact mem
  | printNewlyInstalledView place free =>
      exact h.carries_on place rfl rfl rfl rfl rfl (fun _ _ _ => rfl) fun _ _ told => by cases told
  | sendNewViewMsg place =>
      exact h.carries_on place rfl rfl rfl rfl rfl (fun _ _ _ => rfl) fun _ _ told => by cases told
  | lockView place free =>
      refine h.carries_on place rfl rfl rfl rfl rfl (fun p mem _ => ?_) fun p mem told => ?_
      · exact decide_eq_true (show p ∈ pr.service.alivePeers.toList from mem)
      · exact absurd (show p ∈ pr.service.alivePeers.toList from mem) (of_decide_eq_false told)
  | deliver place found => exact absurd rfl (notSent _ _)
  | @delivered t m place =>
      obtain ⟨leaderPeerId, service⟩ := service_finishOperation pr t
      refine .of_main (fun p outstanding => ?_)
        (fun p _ => (owesView_of_place h.steady place p).trans rfl) (by rw [service])
        (by rw [service]) (fun p k found => by rw [service]; exact found)
        fun _ p _ k found => by rwa [service] at found
      cases h.steady.requested_of_outstanding place outstanding
  | startAsLeader place free =>
      have same : ∀ t, ({ pr.install with main := .accept } : Process).operation t =
          pr.operation t := by
        intro t
        cases t with
        | main =>
            unfold Process.operation
            rw [place]
        | detector => rfl
      have completes : ({ pr.install with main := .accept } : Process).completes =
          pr.completes := by
        unfold Process.completes
        rw [place]
      refine .of_main (fun p outstanding => ?_) (fun p told => ?_) rfl rfl (fun _ _ found => found)
        fun _ _ _ _ found => found
      · obtain ⟨t, operation, here, requested⟩ := outstanding
        exact ⟨t, operation, (same t).trans here, by rw [completes]; exact requested⟩
      · unfold owesView at told ⊢
        rwa [same, same] at told
  | @accept client newPeerId place =>
      have idle : ∀ t, pr.operation t = none := by
        intro t
        cases t with
        | main =>
            unfold Process.operation
            rw [place]
        | detector => exact alone _ _ _ rfl
      refine .of_main (fun p outstanding => (not_outstanding_of_idle idle outstanding).elim)
        (fun p _ => owesView_of_idle idle p) rfl rfl (fun p k found => ?_)
        fun isExact p mem k found => ?_
      · change Function.update pr.service.tcpClientMap newPeerId _ p = _
        rw [Function.update_apply]
        split
        · rename_i same
          rw [← same, found]
          rfl
        · exact found
      · obtain ⟨k', before⟩ := Option.ne_none_iff_exists'.mp (connected isExact place p mem)
        rcases insertClient_cases found with same | ⟨rfl, _⟩
        · exact same
        · change Function.update pr.service.tcpClientMap p
            (some ((pr.service.tcpClientMap p).getD client)) p = _ at found
          rw [Function.update_self, before] at found
          rw [before, ← found]
          rfl
  | skipMyself place => exact (elsewhere place rfl).elim
  | leaderFound place _ => exact (elsewhere place rfl).elim
  | noLeaderThere place _ => exact (elsewhere place rfl).elim
  | noLeaderFound place => exact (elsewhere place rfl).elim
  | followerReceives place _ _ => exact (elsewhere place rfl).elim
  | leaderLost place _ => exact (elsewhere place rfl).elim
  | sendOkMsg place _ => exact (elsewhere place rfl).elim
  | okMsgFailed place _ => exact (elsewhere place rfl).elim
  | waitForLeaderCrash place _ => exact (elsewhere place rfl).elim
  | handleLeaderCrash place _ => exact (elsewhere place rfl).elim
  | reconnect place => exact (elsewhere place rfl).elim
  | unreachable place => exact (elsewhere place rfl).elim
  | reconnected place => exact (elsewhere place rfl).elim
  | introduce place => exact (elsewhere place rfl).elim
  | introduceFailed place => exact (elsewhere place rfl).elim
  | pendingRequest place _ => exact (elsewhere place rfl).elim
  | notConnected place _ => exact (elsewhere place rfl).elim
  | completeRequest place _ => exact (elsewhere place rfl).elim
  | nothingPending place _ => exact (elsewhere place rfl).elim
  | waitForNewLeaderMsg place => exact (elsewhere place rfl).elim
  | greet place => exact (elsewhere place rfl).elim
  | sendPendingRequestMsg place _ => exact (elsewhere place rfl).elim

end GroupComm.Lab2
