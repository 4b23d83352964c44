import GroupComm.Lab2.Commanding

/-!
# A leader and its followers

As long as a leader is up, only peers that are still to be sent the new view hold its request, or
the request of its predecessor for the same operation.  `Led` relates the leader to the outlooks of
its followers; whoever takes a step, it is kept until the leader is gone.
-/

namespace GroupComm.Lab2

open MembershipService World Transition Process

/-! ## Steps of a follower -/

/-- **How a follower comes to lead**: nobody has been found, or it is elected. -/
theorem ThreadStep.obeys {pr next : Process} {t : Thread} {label : Label}
    (step : ThreadStep pr t label next) (follows : pr.main.follows = true)
    (idle : pr.detector = none) : next.detector = none ∧
      (next.main.commands = false ∨ t = .main ∧ label = .silent [] ∧
        (pr.main = .findLeader [] ∧ next =
          { pr with service := { pr.service with leaderPeerId := pr.me }, main := .startAsLeader } ∨
        pr.main = .handleLeaderCrash ∧
          nextLeader pr.me pr.heartBeats.getAlivePeers = pr.me ∧ next = pr.handleLeaderCrash)) := by
  have outside {t : Thread} {operation : Operation} (here : pr.operation t = some operation) :
      False := by
    rw [operation_of_follows follows idle] at here
    cases here
  have elsewhere {place : MainState} (here : pr.main = place) (other : place.follows = false) :
      False := by
    rw [here, other] at follows
    cases follows
  cases step with
  | dies _ => exact ⟨rfl, Or.inl rfl⟩
  | call here => exact (outside here).elim
  | lock here _ => exact (outside here).elim
  | sendRequestMsg here _ => exact (outside here).elim
  | requestsSent here => exact (outside here).elim
  | waitForOkMsg here _ _ => exact (outside here).elim
  | newView here => exact (outside here).elim
  | printNewlyInstalledView here _ => exact (outside here).elim
  | sendNewViewMsg here => exact (outside here).elim
  | lockView here _ => exact (outside here).elim
  | deliver here _ => exact (outside here).elim
  | delivered here => exact (outside here).elim
  | skipMyself here => exact ⟨idle, Or.inl rfl⟩
  | leaderFound here other => exact ⟨idle, Or.inl rfl⟩
  | noLeaderThere here other => exact ⟨idle, Or.inl rfl⟩
  | noLeaderFound here => exact ⟨idle, Or.inr ⟨rfl, rfl, Or.inl ⟨here, rfl⟩⟩⟩
  | startAsLeader here _ => exact (elsewhere here rfl).elim
  | accept here => exact (elsewhere here rfl).elim
  | @followerReceives k m here found free =>
      cases m with
      | request m => exact ⟨idle, Or.inl rfl⟩
      | newView m =>
          have main : (pr.followerReceives (.newView m)).main = .startAsFollower := here
          exact ⟨idle, Or.inl (by rw [main]; rfl)⟩
      | ok m => exact ⟨rfl, Or.inl rfl⟩
      | newLeader m => exact ⟨rfl, Or.inl rfl⟩
  | leaderLost here found => exact ⟨idle, Or.inl rfl⟩
  | sendOkMsg here found => exact ⟨idle, Or.inl rfl⟩
  | okMsgFailed here found => exact ⟨idle, Or.inl rfl⟩
  | waitForLeaderCrash here _ => exact ⟨idle, Or.inl rfl⟩
  | handleLeaderCrash here _ =>
      by_cases elected : nextLeader pr.me pr.heartBeats.getAlivePeers = pr.me
      · refine ⟨?_, Or.inr ⟨rfl, rfl, Or.inr ⟨here, elected, rfl⟩⟩⟩
        unfold Process.handleLeaderCrash
        dsimp only
        rw [if_pos elected]
        exact idle
      · unfold Process.handleLeaderCrash
        dsimp only
        rw [if_neg elected]
        exact ⟨idle, Or.inl rfl⟩
  | reconnect here => exact (elsewhere here rfl).elim
  | unreachable here => exact (elsewhere here rfl).elim
  | reconnected here => exact (elsewhere here rfl).elim
  | introduce here => exact (elsewhere here rfl).elim
  | introduceFailed here => exact (elsewhere here rfl).elim
  | pendingRequest here _ => exact (elsewhere here rfl).elim
  | notConnected here _ => exact (elsewhere here rfl).elim
  | completeRequest here _ => exact (elsewhere here rfl).elim
  | nothingPending here _ => exact (elsewhere here rfl).elim
  | waitForNewLeaderMsg here => exact ⟨idle, Or.inl rfl⟩
  | greet here => exact ⟨idle, Or.inl rfl⟩
  | sendPendingRequestMsg here found => exact ⟨idle, Or.inl rfl⟩

/-! ## A leader and its followers -/

/-- Process `L` leads, and `r` is the request of its last operation. -/
structure Led (exact : Prop) (L : ProcId) (r : RequestMsg) (s : World) : Prop where
  commanding : (s.processes L).Commanding exact r
  obeys : ∀ i ≠ L, (s.processes i).main.commands = false
  idle : ∀ i ≠ L, (s.processes i).detector = none
  fits : ∀ i, (s.processes i).main.follows = true →
    (s.outlook i).Fits exact r (s.processes i).me
  /-- Only a peer that is still to be sent the view holds a request. -/
  asked : ∀ i, s.holdsRequest i = true → ∃ p k, p ∈ (s.processes L).service.alivePeers ∧
    (s.processes L).service.tcpClientMap p = some k ∧
      (s.processes i).leaderClient = some k.peer ∧ (s.processes L).Outstanding p
  told : exact → ∀ i p k, p ∈ (s.processes L).service.alivePeers →
    (s.processes L).service.tcpClientMap p = some k →
      (s.processes i).leaderClient = some k.peer → (s.processes L).owesView p = false →
        (s.outlook i).viewId = (s.processes L).service.viewId

namespace Led

variable {exact : Prop} {L : ProcId} {r r' : RequestMsg} {s s' : World} {e : Event} {i : ProcId}
  {t : Thread} {label : Label} {next : Process}

theorem commands (h : Led exact L r s) : (s.processes L).main.commands = true :=
  MainState.commands_of_rules h.commanding.rules

theorem running (h : Led exact L r s) : (s.processes L).running = true :=
  MainState.running_of_commands h.commands

theorem apart_of_follows (h : Led exact L r s) (follows : (s.processes i).main.follows = true) :
    i ≠ L := by
  rintro rfl
  have commands := h.commands
  rw [MainState.commands_of_follows follows] at commands
  cases commands

theorem not_unled (h : Led exact L r s) (wired : Wired s) (apart : i ≠ L) : ¬ s.Unled i := by
  intro unled
  have obeys := unled L (List.mem_range.mpr (wired.started L h.running)) apart.symm
  rw [h.commands] at obeys
  cases obeys

/-- The peer at the other end of a connection of the leader. -/
theorem peer_of_reads (wired : Wired s) {p : PeerId} {k : Socket}
    (found : (s.processes L).service.tcpClientMap p = some k)
    (reads : (s.processes i).leaderClient = some k.peer) : (s.processes i).me = p := by
  obtain ⟨_, _, peer⟩ := wired.held L p k (Or.inl found)
  obtain ⟨_, own⟩ := Takes.owns wired reads
  rw [← own]
  exact peer

/-- Nothing of account is sent, but the leader may go on by itself. -/
theorem frame (h : Led exact L r s) (wired : Wired s)
    (commanding : (s'.processes L).Commanding exact r')
    (obeys : ∀ i ≠ L, (s'.processes i).main.commands = false)
    (idle : ∀ i ≠ L, (s'.processes i).detector = none) (kept : s.KeepsOutlook s')
    (me : ∀ i, (s'.processes i).me = (s.processes i).me)
    (renames : r' = r ∨ (∀ i, s.holdsRequest i = false) ∨
      ¬ exact ∧ r'.operationType = r.operationType ∧ r'.peerId = r.peerId)
    (reads : ∀ i p k, (s.processes L).service.tcpClientMap p = some k →
      (s'.processes i).main.follows = true →
        ((s'.processes i).leaderClient = some k.peer ↔
          (s.processes i).leaderClient = some k.peer))
    (carries : (s.processes L).Carries exact r (s'.processes L)) : Led exact L r' s' := by
  have holds {j : ProcId} (holds : s'.holdsRequest j = true) :
      (s'.processes j).main.follows = true ∧ s.holdsRequest j = true := by
    rw [holdsRequest_iff] at holds ⊢
    obtain ⟨follows, something⟩ := holds
    obtain ⟨before, same⟩ := kept j follows
    rw [same] at something
    exact ⟨follows, before, something⟩
  refine ⟨commanding, obeys, idle, fun j follows => ?_, fun j holding => ?_,
    fun isExact j p k mem found reading told => ?_⟩
  · obtain ⟨before, same⟩ := kept j follows
    have fits := h.fits j before
    rw [me, same]
    rcases renames with rfl | nobody | ⟨loose, operationType, peerId⟩
    · exact fits
    · intro something
      have holding := holdsRequest_iff.mpr ⟨before, something⟩
      rw [nobody] at holding
      cases holding
    · exact fits.rename loose operationType peerId
  · obtain ⟨follows, before⟩ := holds holding
    obtain ⟨p, k, mem, found, reading, outstanding⟩ := h.asked j before
    obtain ⟨followed, something⟩ := holdsRequest_iff.mp before
    obtain ⟨_, _, apart, _⟩ := h.fits j followed something
    rw [peer_of_reads wired found reading] at apart
    obtain ⟨mem', found', outstanding'⟩ := carries.asks p k mem found apart outstanding
    exact ⟨p, k, mem', found', (reads j p k found follows).mpr reading, outstanding'⟩
  · obtain ⟨mem', found', told', viewId⟩ := carries.tells isExact p k mem found told
    have follows : (s'.processes j).main.follows = true :=
      MainState.follows_of_reads (holds_of_leaderClient reading).1
    rw [(kept j follows).2, viewId]
    exact h.told isExact j p k mem' found' ((reads j p k found' follows).mp reading) told'

/-- A leader plays its role at each of its connections. -/
theorem plays (h : Led exact L r s) {p : PeerId} {k : Socket}
    (found : (s.processes L).service.tcpClientMap p = some k) :
    (s.processes L).Plays k (.leads ((s.processes L).owed p)) :=
  .leads h.commanding.rules found

/-- A follower that goes on reads from the leader or does not. -/
theorem reads_iff (h : Led exact L r s) (wired : Wired s) (session : InSession s)
    (unreset : s.Unreset) (takes : s.Takes e s' i t label next)
    (follows : (s.processes i).main.follows = true) (stays : next.main.follows = true)
    {p : PeerId} {k : Socket} (found : (s.processes L).service.tcpClientMap p = some k) :
    next.leaderClient = some k.peer ↔ (s.processes i).leaderClient = some k.peer := by
  have idle := h.idle i (h.apart_of_follows follows)
  obtain ⟨less, own, _⟩ := wired.held L p k (Or.inl found)
  constructor
  · intro reading
    rcases takes.read_before wired follows idle stays reading with before | new | plays
    · exact before
    · have same := congrArg Socket.connection new
      exact absurd same (Nat.ne_of_lt less)
    · -- a leader is not asked for by somebody who answers a new one
      obtain ⟨less', own'⟩ := wired.owner_of_plays plays
      have leads := h.plays found
      rcases session.joint less' (.process (own' ▸ plays))
        (.process (by rw [Socket.peer_peer, own]; exact leads)) with joint | joint
      · cases joint
      · cases joint
  · intro reading
    refine takes.reads_on wired follows idle stays reading ?_
    rw [Socket.peer_peer]
    unfold World.ended
    rw [own, unreset.held L p k (Or.inl found), h.running]
    rfl

/-- **A follower takes a step.** -/
theorem follower (h : Led exact L r s) (wired : Wired s) (session : InSession s)
    (unreset : s.Unreset) (allowed : OneLeader s e) (takes : s.Takes e s' i t label next)
    (apart : i ≠ L) : Led exact L r s' := by
  have idle := h.idle i apart
  have follows : (s.processes i).main.follows = true := by
    rcases MainState.follows_or_stopped (h.obeys i apart) with follows | stopped
    · exact follows
    · have running := takes.running
      unfold Process.running at running
      rw [stopped] at running
      cases running
  have leader : s'.processes L = s.processes L := takes.other apart.symm
  obtain ⟨idle', obeys'⟩ := takes.step.obeys follows idle
  have stays : next.main.commands = false := by
    rcases obeys' with obeys | ⟨rfl, rfl, leads⟩
    · exact obeys
    · have permitted := takes.permits allowed fun _ _ same => by cases same
      rcases leads with ⟨place, _⟩ | ⟨place, elected, _⟩
      · rw [place] at permitted
        exact absurd permitted (h.not_unled wired apart)
      · rw [place] at permitted
        exact absurd (permitted elected) (h.not_unled wired apart)
  refine h.frame wired (by rw [leader]; exact h.commanding) (fun j other => ?_)
    (fun j other => ?_) (takes.keepsOutlook wired session allowed
      (operation_of_follows follows idle) fun _ => follows) (fun j => ?_) (Or.inl rfl)
    (fun j p k found stays => ?_) ?_
  · rw [takes.process]
    split
    · exact stays
    · exact h.obeys j other
  · rw [takes.process]
    split
    · exact idle'
    · exact h.idle j other
  · rw [takes.process]
    split
    · rename_i same
      rw [same]
      exact takes.step.me_eq
    · rfl
  · by_cases same : j = i
    · subst same
      rw [takes.here] at stays ⊢
      exact h.reads_iff wired session unreset takes follows stays found
    · rw [takes.other same]
  · rw [leader]
    exact .of_main (fun _ => id) (fun _ => id) rfl rfl (fun _ _ => id) fun _ _ _ _ => id

/-- Nobody holds a request when a leader begins an operation of its own. -/
theorem renames_of_lock (h : Led exact L r s) {m : RequestMsg}
    (place : (s.processes L).operation t = some (.lock m)) :
    m = r ∨ (∀ i, s.holdsRequest i = false) ∨
      ¬ exact ∧ m.operationType = r.operationType ∧ m.peerId = r.peerId := by
  obtain ⟨_, _, same⟩ := h.commanding.asks _ _ place
  cases completes : (s.processes L).completes with
  | true => exact Or.inr (Or.inr (same completes))
  | false =>
      refine Or.inr (Or.inl fun j => Bool.eq_false_iff.mpr fun holding => ?_)
      obtain ⟨_, _, _, _, _, outstanding⟩ := h.asked j holding
      have requested := h.commanding.steady.requested_of_outstanding place outstanding
      rw [completes] at requested
      cases requested

/-- The leader handles one change at a time. -/
theorem undetecting (h : Led exact L r s) (allowed : OneLeader s e)
    (takes : s.Takes e s' L t label next) :
    ∀ close k p, label = .accepted close k p → (s.processes L).detector = none := by
  rintro close k p rfl
  have step := takes.step
  cases step with
  | dies fatal => cases fatal
  | accept place =>
      have permitted := takes.permits allowed fun _ _ same => by cases same
      rw [place] at permitted
      exact permitted
  | waitForNewLeaderMsg place =>
      have rules := h.commanding.rules
      rw [place] at rules
      cases rules

/-- **The leader takes a step in which it sends nothing.** -/
theorem goesOn (h : Led exact L r s) (wired : Wired s)
    (linked : exact → (s.processes L).Linked) (allowed : OneLeader s e)
    (takes : s.Takes e s' L t label next) (up : next.running = true)
    (notSent : ∀ k m, label ≠ .sent k m) : ∃ r', Led exact L r' s' := by
  have alone := h.undetecting allowed takes
  have carries := takes.step.carries h.commanding up notSent alone fun isExact place =>
    (linked isExact).connected (by rw [place]; rfl)
  obtain ⟨r', commanding, renames⟩ : ∃ r', next.Commanding exact r' ∧
      (r' = r ∨ (∀ i, s.holdsRequest i = false) ∨
        ¬ exact ∧ r'.operationType = r.operationType ∧ r'.peerId = r.peerId) := by
    rcases takes.step.commanding h.commanding up alone with same | ⟨m, place, begins⟩
    · exact ⟨r, same, Or.inl rfl⟩
    · exact ⟨m, begins, h.renames_of_lock place⟩
  have other {j : ProcId} (follows : (s'.processes j).main.follows = true) : j ≠ L := by
    rintro rfl
    rw [takes.here] at follows
    have commands := MainState.commands_of_rules commanding.rules
    rw [MainState.commands_of_follows follows] at commands
    cases commands
  refine ⟨r', h.frame wired (by rw [takes.here]; exact commanding) (fun j apart => ?_)
    (fun j apart => ?_) (fun j follows => ?_) (fun j => ?_) renames (fun j p k _ follows => ?_)
    (by rw [takes.here]; exact carries)⟩
  · rw [takes.other apart]
    exact h.obeys j apart
  · rw [takes.other apart]
    exact h.idle j apart
  · have apart := other follows
    rw [takes.other apart] at follows
    exact ⟨follows, takes.outlook_other wired apart fun k m sent => absurd sent (notSent k m)⟩
  · rw [takes.process]
    split
    · rename_i same
      rw [same]
      exact takes.step.me_eq
    · rfl
  · rw [takes.other (other follows)]

/-- What a message of the leader does to the outlooks. -/
theorem outlook_sent (wired : Wired s) {k : Socket} {m : Msg}
    (takes : s.Takes e s' L t (.sent k m) next) {j : ProcId} (apart : j ≠ L) :
    s'.outlook j =
      if (s.processes j).leaderClient = some k.peer then (s.outlook j).absorb m
      else s.outlook j := by
  unfold World.outlook
  rw [takes.other apart]
  cases reads : (s.processes j).leaderClient with
  | none =>
      rw [outlook_of_none reads, outlook_of_none reads, if_neg fun same => by cases same]
  | some l =>
      rw [outlook_of_reads reads, outlook_of_reads reads]
      split
      · rename_i same
        cases same
        rw [takes.inbox]
        change (Function.update s.inbox k.peer (s.inbox k.peer ++ [m]) k.peer).foldl _ _ = _
        rw [Function.update_self, List.foldl_append]
        rfl
      · rename_i elsewhere
        rw [takes.inbox_eq (Takes.owns wired reads).1 ?_ fun _ _ same => by cases same]
        rintro client m' same rfl
        cases same
        exact elsewhere rfl

/-- A message to one peer, of a leader that goes on with its operation. -/
theorem deliver (h : Led exact L r s) (wired : Wired s) {p : PeerId} {k : Socket} {m : Msg}
    (takes : s.Takes e s' L t (.sent k m) next) (commanding : next.Commanding exact r)
    (service : next.service = (s.processes L).service)
    (found : (s.processes L).service.tcpClientMap p = some k)
    (mem : p ∈ (s.processes L).service.alivePeers)
    (fits : ∀ j, (s.processes j).leaderClient = some k.peer →
      (s.outlook j).Fits exact r (s.processes j).me →
        ((s.outlook j).absorb m).Fits exact r (s.processes j).me)
    (asks : (∀ j, ((s.outlook j).absorb m).pendingRequest = getDummyPendingRequestMsg) ∨
      next.Outstanding p)
    (asksOthers : ∀ q ≠ p, (s.processes L).Outstanding q → next.Outstanding q)
    (tells : exact → ∀ j, (s.processes j).leaderClient = some k.peer → next.owesView p = false →
      ((s.outlook j).absorb m).viewId = (s.processes L).service.viewId)
    (tellsOthers : ∀ q ≠ p, next.owesView q = false → (s.processes L).owesView q = false) :
    Led exact L r s' := by
  have separated := wired.separated L
  have other {j : ProcId} (follows : (s'.processes j).main.follows = true) : j ≠ L := by
    rintro rfl
    rw [takes.here] at follows
    have commands := MainState.commands_of_rules commanding.rules
    rw [MainState.commands_of_follows follows] at commands
    cases commands
  have reader {j : ProcId} {l : Socket} (reads : (s'.processes j).leaderClient = some l) :
      j ≠ L := other (MainState.follows_of_reads (holds_of_leaderClient reads).1)
  refine ⟨by rw [takes.here]; exact commanding, fun j apart => ?_, fun j apart => ?_,
    fun j follows => ?_, fun j holding => ?_, fun isExact j q l mem' at_q reads told => ?_⟩
  · rw [takes.other apart]
    exact h.obeys j apart
  · rw [takes.other apart]
    exact h.idle j apart
  · have apart := other follows
    rw [takes.other apart] at follows ⊢
    rw [outlook_sent wired takes apart]
    split
    · rename_i reads
      exact fits j reads (h.fits j follows)
    · exact h.fits j follows
  · obtain ⟨follows, something⟩ := holdsRequest_iff.mp holding
    have apart := other follows
    rw [takes.other apart] at follows ⊢
    rw [outlook_sent wired takes apart] at something
    rw [takes.here, service]
    split at something
    · rename_i reads
      refine ⟨p, k, mem, found, reads, ?_⟩
      exact asks.resolve_left fun dummy => something (dummy j)
    · rename_i elsewhere
      obtain ⟨q, l, mem', at_q, reads, outstanding⟩ :=
        h.asked j (holdsRequest_iff.mpr ⟨follows, something⟩)
      refine ⟨q, l, mem', at_q, reads, asksOthers q ?_ outstanding⟩
      rintro rfl
      rw [found] at at_q
      cases at_q
      exact elsewhere reads
  · have apart := reader reads
    rw [takes.other apart] at reads
    rw [takes.here] at told
    rw [takes.here, service] at mem' at_q
    rw [takes.here, service, outlook_sent wired takes apart]
    split
    · rename_i here
      rw [reads] at here
      have same : l = k := Socket.peer_injective (Option.some.inj here)
      have isP := separated q p k (same ▸ at_q) found
      rw [isP] at told
      exact tells isExact j (same ▸ reads) told
    · rename_i elsewhere
      refine h.told isExact j q l mem' at_q reads (tellsOthers q ?_ told)
      rintro rfl
      rw [found] at at_q
      cases at_q
      exact elsewhere reads

/-- **The leader sends** its request, or the view. -/
theorem sent (h : Led exact L r s) (wired : Wired s) (session : InSession s)
    (allowed : OneLeader s e) {k : Socket} {m : Msg}
    (takes : s.Takes e s' L t (.sent k m) next) (up : next.running = true) :
    Led exact L r s' := by
  have elsewhere {place : MainState} (here : (s.processes L).main = place)
      (other : place.rules = false) : False := by
    have rules := h.commanding.rules
    rw [here, other] at rules
    cases rules
  have commanding : next.Commanding exact r := by
    rcases takes.step.commanding h.commanding up (h.undetecting allowed takes) with
      same | ⟨m', place, _⟩
    · exact same
    · have step := takes.step
      cases step with
      | dies fatal => cases fatal
      | sendRequestMsg here _ =>
          rw [here] at place
          cases place
      | deliver here _ =>
          rw [here] at place
          cases place
      | sendOkMsg here _ => exact (elsewhere here rfl).elim
      | introduce here => exact (elsewhere here rfl).elim
      | sendPendingRequestMsg here _ => exact (elsewhere here rfl).elim
  have step := takes.step
  cases step with
  | dies fatal => cases fatal
  | @sendRequestMsg _ m p rest _ place found =>
      obtain ⟨rfl, something, viewId, deleted⟩ := h.commanding.asks _ _ place
      obtain ⟨nodup, alive, _⟩ := (session.tidy L).addresses _ _ place
      have mem := alive p List.mem_cons_self
      have untold : (s.processes L).owesView p = false :=
        owesView_of_place h.commanding.steady place p
      have goesOn {q : PeerId} (requested : (Operation.sendRequestMsg m rest).requested
          (s.processes L).completes q = true) :
          ((s.processes L).setOperation (.sendRequestMsg m rest) t).Outstanding q :=
        ⟨t, _, by rw [operation_setOperation place rfl rfl, if_pos rfl],
          by rw [completes_setOperation place rfl]; exact requested⟩
      refine h.deliver wired takes commanding (service_setOperation _ _ _) found mem
        (fun j reads _ _ => ?_) (Or.inr (goesOn ?_)) (fun q other outstanding => goesOn ?_)
        (fun isExact j reads _ => h.told isExact j p k mem found reads untold) fun q _ _ => ?_
      · refine ⟨something, .refl, fun deletes same => deleted deletes ?_, fun isExact => ?_⟩
        · rw [same, peer_of_reads wired found reads]
          exact mem
        · exact (h.told isExact j p k mem found reads untold).trans viewId.symm
      · unfold Operation.requested
        rw [Bool.or_eq_true]
        exact Or.inr (decide_eq_true (List.nodup_cons.mp nodup).1)
      · have before := h.commanding.steady.requested_of_outstanding place outstanding
        unfold Operation.requested at before ⊢
        rw [Bool.or_eq_true, decide_eq_true_iff] at before ⊢
        exact before.imp_right fun unsent later => unsent (List.mem_cons_of_mem _ later)
      · exact owesView_of_place h.commanding.steady place q
  | @deliver _ m p rest _ place found =>
      obtain ⟨made, nodup, alive, _⟩ := h.commanding.steady.tells _ _ place
      have owes : ∀ q, ((s.processes L).setOperation (.deliver m rest) t).owesView q =
          decide (q ∈ rest) :=
        h.commanding.steady.owesView_setOperation place (s.processes L) rfl rfl
      refine h.deliver wired takes commanding (service_setOperation _ _ _) found
        (alive p List.mem_cons_self) (fun j _ _ something => absurd rfl something)
        (Or.inl fun _ => rfl) (fun q other outstanding => ⟨t, .deliver m rest, ?_, ?_⟩)
        (fun _ j _ _ => ?_) fun q other told => ?_
      · rw [operation_setOperation place rfl rfl, if_pos rfl]
      · have before := h.commanding.steady.requested_of_outstanding place outstanding
        have later : q ∈ p :: rest := of_decide_eq_true before
        exact decide_eq_true (List.mem_of_ne_of_mem other later)
      · change m.newViewId = _
        rw [made]
        rfl
      · rw [owes] at told
        rw [owesView_of_place h.commanding.steady place]
        exact decide_eq_false fun later =>
          of_decide_eq_false told (List.mem_of_ne_of_mem other later)
  | sendOkMsg place _ => exact (elsewhere place rfl).elim
  | introduce place => exact (elsewhere place rfl).elim
  | sendPendingRequestMsg place _ => exact (elsewhere place rfl).elim

/-- What the leader keeps when its failure detector learns something. -/
theorem learns_commanding (h : Led exact L r s) (learns : (s.processes L).Learns next) :
    next.Commanding exact r ∧ (s.processes L).Carries exact r next := by
  obtain ⟨leaderCrashed, service⟩ := learns.service
  have completes : next.completes = (s.processes L).completes := completes_of_main learns.main
  have main : next.operation .main = (s.processes L).operation .main := by
    unfold Process.operation
    rw [learns.main]
  have operations : ∀ t operation, next.operation t = some operation →
      (s.processes L).operation t = some operation ∨ ∃ p, operation = .call p .DEL ∧
        (s.processes L).main.serves = true := by
    intro t operation place
    cases t with
    | main => exact Or.inl (main.symm.trans place)
    | detector =>
        change next.detector = some operation at place
        rcases learns.detector with none | ⟨serves, _, p, deletes⟩
        · rw [none] at place
          cases place
        · rw [deletes] at place
          cases place
          exact Or.inr ⟨p, rfl, serves⟩
  refine ⟨⟨by rw [learns.main]; exact h.commanding.rules, ⟨fun busy => ?_,
    fun t operation place => ?_⟩, fun t operation place => ?_⟩, .of_main (fun p outstanding => ?_)
    (fun p told => ?_) (by rw [service]) (by rw [service]) (fun _ _ found => by rwa [service])
    fun _ _ _ _ found => by rwa [service] at found⟩
  · rw [learns.main]
    rcases learns.detector with none | ⟨serves, free, _⟩
    · exact absurd none busy
    · -- a leader in no operation
      cases place : (s.processes L).main with
      | startAsLeader => rfl
      | accept => rfl
      | addPeer operation =>
          unfold Process.operation at free
          rw [place] at free
          cases free
      | _ =>
          rw [place] at serves
          cases serves
  · rcases operations t operation place with before | ⟨p, rfl, _⟩
    · exact tells_congr (h.commanding.steady.tells t operation before) learns.installed learns.me
        (by rw [service]) (by rw [service])
    · exact trivial
  · rcases operations t operation place with before | ⟨p, rfl, serves⟩
    · exact asks_congr (h.commanding.asks t operation before) completes (by rw [service])
        (by rw [service])
    · refine ⟨(fun same => by cases same), fun completing => ?_⟩
      rw [completes] at completing
      unfold Process.completes at completing
      cases place : (s.processes L).main with
      | completeRequest operation =>
          rw [place] at serves
          cases serves
      | _ =>
          rw [place] at completing
          cases completing
  · obtain ⟨t, operation, place, requested⟩ := outstanding
    cases t with
    | main =>
        exact ⟨.main, operation, main.trans place, by rw [completes]; exact requested⟩
    | detector =>
        change (s.processes L).detector = _ at place
        rw [learns.idle] at place
        cases place
  · have none : (s.processes L).operation .detector = none := learns.idle
    unfold owesView at told ⊢
    rw [Bool.or_eq_false_iff, main] at told
    rw [none, told.1]
    rfl

/-- **A failure detector learns something.** -/
theorem learns (h : Led exact L r s) (wired : Wired s) (learns : (s.processes i).Learns next) :
    Led exact L r (s.setProcess i next) := by
  have process : ∀ j, (s.setProcess i next).processes j = if j = i then next else s.processes j :=
    fun j => Function.update_apply _ _ _ _
  have leader : ((s.setProcess i next).processes L).Commanding exact r ∧
      (s.processes L).Carries exact r ((s.setProcess i next).processes L) := by
    rw [process]
    split
    · rename_i same
      subst same
      exact h.learns_commanding learns
    · exact ⟨h.commanding,
        .of_main (fun _ => id) (fun _ => id) rfl rfl (fun _ _ => id) fun _ _ _ _ => id⟩
  refine h.frame wired leader.1 (fun j apart => ?_) (fun j apart => ?_) learns.keepsOutlook
    (fun j => ?_) (Or.inl rfl) (fun j _ _ _ _ => ?_) leader.2
  · rw [process]
    split
    · rename_i same
      rw [learns.main, ← same]
      exact h.obeys j apart
    · exact h.obeys j apart
  · rw [process]
    split
    · rename_i same
      rcases learns.detector with none | ⟨serves, _⟩
      · exact none
      · have obeys := h.obeys j apart
        rw [same, MainState.commands_of_serves serves] at obeys
        cases obeys
    · exact h.idle j apart
  · rw [process]
    split
    · rename_i same
      rw [same]
      exact learns.me
    · rfl
  · rw [process]
    split
    · rename_i same
      rw [same, learns.leaderClient]
    · rfl

/-- **A process starts.** -/
theorem start (h : Led exact L r s) (starts : s.Starts s' i) (apart : L ≠ i) :
    Led exact L r s' := by
  have leader := starts.other L apart
  refine ⟨by rw [leader]; exact h.commanding, fun j other => ?_, fun j other => ?_,
    fun j follows something => ?_, fun j holding => ?_,
    fun isExact j p k mem found reads told => ?_⟩
  · by_cases same : j = i
    · obtain ⟨hosts, place⟩ := starts.place
      rw [same, place]
      rfl
    · rw [starts.other j same]
      exact h.obeys j other
  · by_cases same : j = i
    · rw [same]
      exact starts.idle
    · rw [starts.other j same]
      exact h.idle j other
  · have old := starts.apart something
    rw [starts.other j old] at follows ⊢
    rw [starts.outlook old] at something ⊢
    exact h.fits j follows something
  · obtain ⟨old, before⟩ := starts.holdsRequest holding
    rw [leader, starts.other j old]
    exact h.asked j before
  · have old : j ≠ i := by
      rintro rfl
      rw [starts.leaderClient] at reads
      cases reads
    rw [starts.other j old] at reads
    rw [leader] at mem found told ⊢
    rw [starts.outlook old]
    exact h.told isExact j p k mem found reads told

end Led

end GroupComm.Lab2
