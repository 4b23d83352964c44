import GroupComm.Lab2.Succession

/-!
# The request that is outstanding

Leaders follow one another, and each may stop in the middle of an operation.  Where nobody comes to
lead past a process that holds a request (`InSuccession`), there is always one operation such that
every follower holds a request for it or the dummy, and the choice of `waitForPendingRequestMsg`,
in which the last answer wins, is the same in every order (`one_outstanding_request`).

As long as no takeover completes a request it is even one `RequestMsg`; a new leader that completes
one makes a message of its own for it (`not_one_requestMsg`).
-/

namespace GroupComm.Lab2

open MembershipService World Transition Process

/-! ## The phases of a run -/

/-- There is one outstanding request, while somebody leads and when nobody does. -/
inductive OneRequest (exact : Prop) (s : World) : Prop
  | led {L : ProcId} {r : RequestMsg} (led : Led exact L r s)
  | vacant {T : ProcId} {r : RequestMsg} (vacant : Vacant exact T r s)

/-- Whoever sends goes on. -/
theorem ThreadStep.running_of_sent {pr next : Process} {t : Thread} {k : Socket} {m : Msg}
    (step : ThreadStep pr t (.sent k m) next) (running : pr.running = true) :
    next.running = true := by
  have goesOn {operation : Operation} : (pr.setOperation operation t).running = true := by
    unfold Process.running at running ⊢
    rcases main_setOperation pr operation t with same | other | other
    · rwa [same]
    · rw [other]
      rfl
    · rw [other]
      rfl
  cases step with
  | dies fatal => cases fatal
  | sendRequestMsg place found => exact goesOn
  | deliver place found => exact goesOn
  | sendOkMsg place found => rfl
  | introduce place => rfl
  | sendPendingRequestMsg place found => rfl

/-- Nobody has been in office, at whichever process that has stopped. -/
theorem Vacant.moves {exact : Prop} {T i : ProcId} {r : RequestMsg} {s : World}
    (h : Vacant exact T r s) (gone : (s.processes T).main = .stopped)
    (stopped : (s.processes i).main = .stopped) : Vacant exact i r s := by
  refine ⟨fun j _ => h.obeys_of_stopped gone j, h.idle, Or.inr stopped, h.fits, fun takesOver => ?_⟩
  rw [stopped] at takesOver
  cases takesOver

namespace OneRequest

variable {exact : Prop} {s s' : World} {e : Event} {hosts : List PeerId}

theorem led_takes {L : ProcId} {r : RequestMsg} {t : Thread} {label : Label} {next : Process}
    (h : Led exact L r s) (wired : Wired s) (session : InSession s)
    (linked : exact → ∀ i, (s.processes i).Linked) (allowed : OneLeader s e)
    (takes : s.Takes e s' L t label next) : OneRequest exact s' := by
  by_cases sent : ∃ k m, label = .sent k m
  · obtain ⟨k, m, rfl⟩ := sent
    exact .led (h.sent wired session allowed takes (takes.step.running_of_sent takes.running))
  · have notSent : ∀ k m, label ≠ .sent k m := fun k m same => sent ⟨k, m, same⟩
    cases up : next.running with
    | true =>
        obtain ⟨r', led⟩ :=
          h.goesOn wired (fun isExact => linked isExact L) allowed takes up notSent
        exact .led led
    | false =>
        have stopped : next.main = .stopped := not_not.mp (of_decide_eq_false up)
        have tidy := takes.step.tidy (wired.sound L) (session.tidy L)
        refine .vacant (h.stops wired takes stopped ?_ notSent)
        by_contra busy
        have serves := tidy.deleting busy
        rw [stopped] at serves
        cases serves

/-- **A step of a run in succession.** -/
theorem step (h : OneRequest exact s) (wired : Wired s)
    (unstarted : ∀ i, s.started ≤ i → s.processes i = { me := 0 }) (session : InSession s)
    (unreset : s.Unreset) (linked : exact → ∀ i, (s.processes i).Linked)
    (allowed : InSuccession s e) (nothing : exact → CompletesNothing s e)
    (taken : s.step hosts e = some s') : OneRequest exact s' := by
  obtain ⟨allowed, passes⟩ := allowed
  cases actor : e.actor with
  | none =>
      have starts := Starts.of_step taken actor
      cases h with
      | led led => exact .led (led.start starts (Nat.ne_of_lt (wired.started _ led.running)))
      | @vacant T r vacant =>
          by_cases new : T = s.started
          · -- nobody has been in office; any other process that has not started will do
            have gone : (s.processes T).main = .stopped := by
              rw [unstarted T (Nat.le_of_eq new.symm)]
            have next : (s.processes (T + 1)).main = .stopped := by
              rw [unstarted (T + 1) (Nat.le_succ_of_le (Nat.le_of_eq new.symm))]
            refine .vacant ((vacant.moves gone next).start starts ?_)
            rw [← new]
            exact Nat.succ_ne_self T
          · exact .vacant (vacant.start starts new)
  | some i =>
      rcases takes_or_learns wired taken allowed actor with
        ⟨t, label, next, takes⟩ | ⟨next, learns, rfl⟩
      · cases h with
        | @led L r led =>
            by_cases here : i = L
            · subst here
              exact led_takes led wired session linked allowed takes
            · exact .led (led.follower wired session unreset allowed takes here)
        | @vacant T r vacant =>
            by_cases here : i = T
            · subst here
              rcases vacant.taker wired session allowed passes nothing takes with same | led
              · exact .vacant same
              · exact .led led
            · rcases vacant.follower wired session allowed passes takes here with
                same | elected | led
              · exact .vacant same
              · exact .vacant elected
              · exact .led led
      · cases h with
        | led led => exact .led (led.learns wired learns)
        | vacant vacant => exact .vacant (vacant.learns learns)

theorem init : OneRequest exact {} := by
  refine .vacant (T := 0) (r := getDummyPendingRequestMsg) ⟨fun _ _ => rfl, fun _ => rfl,
    Or.inr rfl, fun _ follows => ?_, fun takesOver => ?_⟩
  · cases follows
  · cases takesOver

/-- Nobody takes a leader for a follower: the one who takes over is alone. -/
theorem inTurn (h : OneRequest exact s) (allowed : OneLeader s e) : InTurn s e := by
  cases e with
  | tick i order => exact fun starts => (allowed starts).1
  | run i t =>
      cases t with
      | detector => exact trivial
      | main =>
          change s.reachesLeader i = false
          rw [Bool.eq_false_iff]
          intro reaches
          unfold World.reachesLeader at reaches
          split at reaches
          · rename_i m peer rest tempAlivePeers place
            obtain ⟨j, _, serves⟩ := List.any_eq_true.mp reaches
            rw [Bool.and_eq_true] at serves
            have commands := MainState.commands_of_serves serves.2
            cases h with
            | @led L r led =>
                by_cases here : i = L
                · have rules := led.commanding.rules
                  rw [← here, place] at rules
                  cases rules
                · have obeys := led.obeys i here
                  rw [place] at obeys
                  cases obeys
            | @vacant T r vacant =>
                by_cases here : j = T
                · have leads := serves.2
                  rw [here] at leads
                  rcases vacant.place with takesOver | stopped
                  · revert takesOver leads
                    cases (s.processes T).main <;> simp [MainState.takesOver, MainState.serves]
                  · rw [stopped] at leads
                    cases leads
                · rw [vacant.obeys j here] at commands
                  cases commands
          · cases reaches
  | _ => exact trivial

/-- No connection of a leader is lost where nobody completes the request of another one. -/
theorem keepsConnections (h : OneRequest exact s) (allowed : OneLeader s e)
    (nothing : CompletesNothing s e) : KeepsConnections s e := by
  cases e with
  | tick i order => exact fun starts => (allowed starts).1
  | run i t =>
      cases t with
      | detector =>
          change (s.processes i).deletesJoining = false
          unfold Process.deletesJoining
          split
          · rename_i m operation detecting adding
            have undetecting (idle : (s.processes i).detector = none) : False := by
              rw [idle] at detecting
              cases detecting
            cases h with
            | @led L r led =>
                by_cases here : i = L
                · subst here
                  have alone := led.commanding.steady.alone (t := .main) adding
                  exact (undetecting alone).elim
                · exact (undetecting (led.idle i here)).elim
            | vacant vacant => exact (undetecting (vacant.idle i)).elim
          · rfl
      | main =>
          change (s.processes i).addsUnconnected = false
          unfold Process.addsUnconnected
          split
          · rename_i m place
            have none : m.operationType = .NOTHING := nothing m (by rw [place]; rfl)
            rw [none]
            rfl
          · rfl
  | _ => exact trivial

end OneRequest

/-! ## Runs in succession -/

theorem inSuccession_of_reachable {hosts : List PeerId} {s : World}
    (reach : Reach (World.step hosts) InSuccession {} s) :
    OneRequest False s ∧ InSession s ∧ s.Unreset := by
  have known : ∀ s, Reach (World.step hosts) InSuccession {} s →
      Wired s ∧ ∀ i, s.started ≤ i → s.processes i = { me := 0 } := fun s before =>
    ⟨wired_of_reachable before.always, unstarted_of_reachable before.always⟩
  refine reach.invariant_with (P := fun s => OneRequest False s ∧ InSession s ∧ s.Unreset) known
    ⟨.init, .init, .init⟩ ?_
  rintro s e s' ⟨wired, unstarted⟩ ⟨one, session, unreset⟩ allowed taken
  exact ⟨one.step wired unstarted session unreset (fun no => no.elim) allowed
      (fun no => no.elim) taken, session.step wired (one.inTurn allowed.1) taken,
    (worldStep_of_step taken).unreset wired session unreset⟩

/-- In succession, and where `exact` without a takeover that completes a request. -/
def InSuccessionWith (exact : Prop) (s : World) (e : Event) : Prop :=
  InSuccession s e ∧ (exact → CompletesNothing s e)

instance decidableInSuccessionWith {exact : Prop} [Decidable exact] (s : World) :
    DecidablePred (InSuccessionWith exact s) := fun _ =>
  inferInstanceAs (Decidable ((_ ∧ _) ∧ (_ → _)))

theorem oneRequest_of_reachable {hosts : List PeerId} {exact : Prop} {s : World}
    (reach : Reach (World.step hosts) (InSuccessionWith exact) {} s) : OneRequest exact s := by
  have known : ∀ s, Reach (World.step hosts) (InSuccessionWith exact) {} s →
      Reach (World.step hosts) InSuccession {} s := fun s before =>
    before.mono fun _ _ both => both.1
  refine reach.invariant_with (Q := fun s => Reach (World.step hosts) (InSuccessionWith exact) {} s)
    (fun _ before => before) .init ?_
  intro s e s' before one allowed taken
  obtain ⟨_, session, unreset⟩ := inSuccession_of_reachable (known s before)
  refine one.step (wired_of_reachable before.always) (unstarted_of_reachable before.always) session
    unreset (fun isExact => ?_) allowed.1 allowed.2 taken
  exact linked_of_reachable (before.mono_with
    (fun s before => (inSuccession_of_reachable (known s before)).1)
    fun _ _ one allowed => one.keepsConnections allowed.1.1 (allowed.2 isExact))

/-! ## The choice -/

/-- All followers that hold a request hold the same one, and the choice of a new leader does not
depend on the order of its peers. -/
structure World.OneOutstanding (exact : Prop) (s : World) : Prop where
  /-- Of what they will hold. -/
  agree : ∀ i j, s.holdsRequest i = true → s.holdsRequest j = true →
    (s.outlook i).pendingRequest.Same exact (s.outlook j).pendingRequest
  /-- Of what they hold, when they have processed everything. -/
  processed : ∀ i j, (s.processes i).main.follows = true → (s.processes j).main.follows = true →
    (s.processes i).unread s.inbox = [] → (s.processes j).unread s.inbox = [] →
      (s.processes i).service.pendingRequest ≠ getDummyPendingRequestMsg →
        (s.processes j).service.pendingRequest ≠ getDummyPendingRequestMsg →
          (s.processes i).service.pendingRequest.Same exact (s.processes j).service.pendingRequest
  scanned : ∀ i rest m, (s.processes i).main = .waitForPendingRequestMsg rest m →
    ∀ order : List PeerId, order.Perm rest → (s.scan i order m).Same exact (s.scan i rest m)
  /-- What has been chosen is what the followers hold. -/
  chosen : ∀ i m, (s.processes i).main = .waitForPendingRequestMsg [] m →
    m.operationType ≠ .NOTHING → ∀ j, s.holdsRequest j = true →
      m.Same exact (s.outlook j).pendingRequest

theorem World.hear_of_head {s : World} {i : ProcId} {peer : PeerId} {k : Socket}
    {requestMsg : RequestMsg} {unread : List Msg}
    (found : (s.processes i).service.tcpClientMap peer = some k)
    (head : s.inbox k = .request requestMsg :: unread) (pendingRequestMsg : RequestMsg) :
    s.hear i pendingRequestMsg peer =
      if requestMsg.operationType ≠ .NOTHING then requestMsg else pendingRequestMsg := by
  unfold World.hear
  rw [found]
  dsimp only [Option.elim_some]
  rw [head]

theorem World.scan_congr {s s' : World} {i : ProcId} {rest : List PeerId}
    (tcpClientMap : (s'.processes i).service.tcpClientMap = (s.processes i).service.tcpClientMap)
    (inbox : ∀ p ∈ rest, ∀ k, (s.processes i).service.tcpClientMap p = some k →
      s'.inbox k = s.inbox k) (pendingRequestMsg : RequestMsg) :
    s'.scan i rest pendingRequestMsg = s.scan i rest pendingRequestMsg := by
  refine List.foldl_ext _ _ _ fun m p mem => ?_
  unfold World.hear
  rw [tcpClientMap]
  cases found : (s.processes i).service.tcpClientMap p with
  | none => rfl
  | some k =>
      dsimp only [Option.elim_some]
      rw [inbox p mem k found]

/-- What the loop makes of the answers: nothing has been answered, or the request is chosen. -/
theorem World.scan_cases {exact : Prop} {r : RequestMsg} {s : World} {i : ProcId}
    (hears : ∀ p, (∀ m, s.hear i m p = m) ∨ ∃ m', r.Same exact m' ∧ ∀ m, s.hear i m p = m')
    (order : List PeerId) (m : RequestMsg) :
    (∀ p ∈ order, ∀ m, s.hear i m p = m) ∧ s.scan i order m = m ∨
      (∃ p ∈ order, ∃ m', ∀ m, s.hear i m p = m') ∧ r.Same exact (s.scan i order m) := by
  induction order generalizing m with
  | nil => exact Or.inl ⟨fun _ mem => absurd mem List.not_mem_nil, rfl⟩
  | cons p order ih =>
      have here : s.scan i (p :: order) m = s.scan i order (s.hear i m p) := rfl
      rw [here]
      rcases ih (s.hear i m p) with ⟨keeps, same⟩ | ⟨⟨q, mem, sets⟩, same⟩
      · rw [same]
        rcases hears p with keeps' | ⟨m', isSame, sets⟩
        · left
          refine ⟨fun q mem => ?_, keeps' m⟩
          rcases List.mem_cons.mp mem with rfl | later
          · exact keeps'
          · exact keeps q later
        · right
          rw [sets]
          exact ⟨⟨p, List.mem_cons_self, m', sets⟩, isSame⟩
      · exact Or.inr ⟨⟨q, List.mem_cons_of_mem _ mem, sets⟩, same⟩

/-- **The order of the peers does not matter** where all answers are the same. -/
theorem World.scan_perm {exact : Prop} {r : RequestMsg} {s : World} {i : ProcId}
    (hears : ∀ p, (∀ m, s.hear i m p = m) ∨ ∃ m', r.Same exact m' ∧ ∀ m, s.hear i m p = m')
    {order rest : List PeerId} (perm : order.Perm rest) (m : RequestMsg) :
    (s.scan i order m).Same exact (s.scan i rest m) := by
  have apart {p : PeerId} (keeps : ∀ m, s.hear i m p = m)
      (sets : ∃ m', ∀ m, s.hear i m p = m') : False := by
    obtain ⟨m', sets⟩ := sets
    have one := (keeps getDummyPendingRequestMsg).symm.trans (sets _)
    have other := (keeps { getDummyPendingRequestMsg with peerId := 1 }).symm.trans (sets _)
    rw [← other] at one
    revert one
    decide
  rcases scan_cases hears order m with ⟨keeps, same⟩ | ⟨⟨p, mem, sets⟩, same⟩
  · rcases scan_cases hears rest m with ⟨_, same'⟩ | ⟨⟨p, mem, sets⟩, _⟩
    · rw [same, same']
      exact .refl
    · exact (apart (keeps p (perm.mem_iff.mpr mem)) sets).elim
  · rcases scan_cases hears rest m with ⟨keeps, _⟩ | ⟨_, same'⟩
    · exact (apart (keeps p (perm.mem_iff.mp mem)) sets).elim
    · exact same.join same'

/-- What has arrived from a peer is no request, or the one that is left. -/
theorem Vacant.hears {exact : Prop} {T : ProcId} {r : RequestMsg} {s : World}
    (h : Vacant exact T r s) (takesOver : (s.processes T).main.takesOver = true) (peer : PeerId) :
    (∀ m, s.hear T m peer = m) ∨ ∃ m', r.Same exact m' ∧ ∀ m, s.hear T m peer = m' := by
  have asking := h.asking takesOver
  cases found : (s.processes T).service.tcpClientMap peer with
  | none =>
      left
      intro m
      unfold World.hear
      rw [found]
      rfl
  | some k =>
      by_cases asks : ∃ requestMsg rest, s.inbox k = .request requestMsg :: rest
      · obtain ⟨requestMsg, rest, head⟩ := asks
        by_cases something : requestMsg.operationType ≠ .NOTHING
        · right
          refine ⟨requestMsg, asking.answers peer k requestMsg found ?_ something, fun m => ?_⟩
          · rw [head]
            exact List.mem_cons_self
          · rw [World.hear_of_head found head, if_pos something]
        · left
          intro m
          rw [World.hear_of_head found head, if_neg something]
      · left
        intro m
        unfold World.hear
        rw [found, Option.elim_some]
        split
        · rename_i head
          exact absurd ⟨_, _, head⟩ asks
        · rfl

namespace OneRequest

variable {exact : Prop} {s : World}

/-- There is a request that every follower holds, if it holds one. -/
theorem fits (h : OneRequest exact s) : ∃ r : RequestMsg, ∀ i,
    (s.processes i).main.follows = true → (s.outlook i).Fits exact r (s.processes i).me := by
  cases h with
  | led led => exact ⟨_, led.fits⟩
  | vacant vacant => exact ⟨_, vacant.fits⟩

/-- Whoever waits for answers takes over. -/
theorem vacant_of_waits (h : OneRequest exact s) {i : ProcId} {rest : List PeerId} {m : RequestMsg}
    (place : (s.processes i).main = .waitForPendingRequestMsg rest m) :
    ∃ r, Vacant exact i r s := by
  cases h with
  | @led L r led =>
      by_cases here : i = L
      · have rules := led.commanding.rules
        rw [← here, place] at rules
        cases rules
      · have obeys := led.obeys i here
        rw [place] at obeys
        cases obeys
  | @vacant T r vacant =>
      by_cases here : i = T
      · exact ⟨r, here ▸ vacant⟩
      · have obeys := vacant.obeys i here
        rw [place] at obeys
        cases obeys

theorem oneOutstanding (h : OneRequest exact s) : s.OneOutstanding exact := by
  obtain ⟨r, fits⟩ := h.fits
  have agree : ∀ i j, s.holdsRequest i = true → s.holdsRequest j = true →
      (s.outlook i).pendingRequest.Same exact (s.outlook j).pendingRequest := by
    intro i j holding holding'
    obtain ⟨follows, something⟩ := holdsRequest_iff.mp holding
    obtain ⟨follows', something'⟩ := holdsRequest_iff.mp holding'
    exact (fits i follows something).2.1.join (fits j follows' something').2.1
  have outlook : ∀ i, (s.processes i).unread s.inbox = [] →
      (s.outlook i).pendingRequest = (s.processes i).service.pendingRequest := by
    intro i processed
    unfold World.outlook Process.outlook
    rw [processed]
    rfl
  refine ⟨agree, fun i j follows follows' processed processed' something something' => ?_,
    fun i rest m place order perm => ?_, fun i m place something j holding => ?_⟩
  · rw [← outlook i processed] at something ⊢
    rw [← outlook j processed'] at something' ⊢
    exact agree i j (holdsRequest_iff.mpr ⟨follows, something⟩)
      (holdsRequest_iff.mpr ⟨follows', something'⟩)
  · obtain ⟨r', vacant⟩ := h.vacant_of_waits place
    exact scan_perm (vacant.hears (by rw [place]; rfl)) perm m
  · obtain ⟨r', vacant⟩ := h.vacant_of_waits place
    obtain ⟨follows, held⟩ := holdsRequest_iff.mp holding
    have chosen := (vacant.asking (by rw [place]; rfl)).chosen [] m place something
    exact chosen.join (vacant.fits j follows held).2.1

end OneRequest

/-- The loop makes of the answers what `scan` makes of them. -/
def World.Scans (hosts : List PeerId) (s : World) : Prop :=
  ∀ i peer rest m, (s.processes i).main = .waitForPendingRequestMsg (peer :: rest) m →
    ∀ s', s.step hosts (.run i .main) = some s' → (s'.processes i).running = true →
      ∃ m', (s'.processes i).main = .waitForPendingRequestMsg rest m' ∧
        s'.scan i rest m' = s.scan i (peer :: rest) m

theorem World.scans {hosts : List PeerId} {s : World} (wired : Wired s) (session : InSession s) :
    s.Scans hosts := by
  intro i peer rest m place s' taken up
  have once : peer ∉ rest := (List.nodup_cons.mp ((session.tidy i).asking _ m place)).1
  have ends {s'' : World} (same : s''.processes i = (s.processes i).terminate)
      (up : (s''.processes i).running = true) {P : Prop} : P := by
    rw [same] at up
    cases up
  rw [World.step] at taken
  split at taken
  · unfold World.perform Process.effect Process.mainEffect at taken
    rw [place] at taken
    dsimp only at taken
    cases found : (s.processes i).service.tcpClientMap peer with
    | none =>
        rw [found] at taken
        cases taken
        have here := Function.update_self i { s.processes i with
          main := .waitForPendingRequestMsg rest m } s.processes
        have heard : s.hear i m peer = m := by
          unfold World.hear
          rw [found]
          rfl
        refine ⟨m, congrArg Process.main here, ?_⟩
        rw [show s.scan i (peer :: rest) m = s.scan i rest (s.hear i m peer) from rfl, heard]
        refine World.scan_congr ?_ ?_ _
        · exact congrArg (fun pr => pr.service.tcpClientMap) here
        · exact fun _ _ _ _ => rfl
    | some k =>
        rw [found] at taken
        dsimp only at taken
        split at taken
        · rename_i message unread head
          cases taken
          cases message with
          | request requestMsg =>
              have here := Function.update_self i { s.processes i with
                main := .waitForPendingRequestMsg rest
                  (if requestMsg.operationType ≠ .NOTHING then requestMsg else m) } s.processes
              refine ⟨_, congrArg Process.main here, ?_⟩
              rw [show s.scan i (peer :: rest) m = s.scan i rest (s.hear i m peer) from rfl,
                World.hear_of_head found head]
              refine World.scan_congr ?_ ?_ _
              · exact congrArg (fun pr => pr.service.tcpClientMap) here
              · intro p mem k' found'
                have apart : k' ≠ k := by
                  rintro rfl
                  have same := (wired.held i p _ (Or.inl found')).2.2
                  rw [(wired.held i peer _ (Or.inl found)).2.2] at same
                  exact once (same ▸ mem)
                exact Function.update_of_ne apart _ _
          | newView m => exact ends (Function.update_self _ _ _) up
          | ok m => exact ends (Function.update_self _ _ _) up
          | newLeader m => exact ends (Function.update_self _ _ _) up
        · split at taken
          · cases taken
            exact ends (Function.update_self _ _ _) up
          · cases taken
  · cases taken

def fiveHostsRun : List Event :=
  threeHostsRun ++
  [.start 4] ++ mainSteps 3 1 ++ mainSteps 0 5 ++ mainSteps 1 2 ++ mainSteps 2 2 ++
  mainSteps 0 11 ++ mainSteps 1 1 ++ mainSteps 2 1 ++ mainSteps 3 1 ++
  [.start 5] ++ mainSteps 4 1 ++ mainSteps 0 6 ++ mainSteps 1 2 ++ mainSteps 2 2 ++
  mainSteps 3 2 ++ mainSteps 0 13 ++ mainSteps 1 1 ++ mainSteps 2 1 ++ mainSteps 3 1

def twoMessagesRun : List Event :=
  fiveHostsRun ++ [.crash 4, .heartBeat 0 5, .tick 0 [5], .tick 0 [5], .tick 0 [5]] ++
  List.replicate 5 (.run 0 .detector) ++ mainSteps 1 2 ++ mainSteps 2 2 ++ mainSteps 3 2 ++
  [.crash 0] ++ mainSteps 1 1 ++ mainSteps 2 1 ++ mainSteps 3 1 ++
  detectRun 1 3 ++ detectRun 2 2 ++ detectRun 3 2 ++ mainSteps 2 2 ++ mainSteps 3 2 ++
  mainSteps 1 8 ++ mainSteps 2 3 ++ mainSteps 3 3 ++ mainSteps 1 6 ++ mainSteps 2 2

theorem twoMessagesRun_through :
    (replay (World.step [1, 2, 3, 4, 5]) {} twoMessagesRun).isSome = true := by
  decide +kernel

theorem twoMessagesRun_inSuccession :
    allowedAlong (World.step [1, 2, 3, 4, 5]) (InSuccessionWith False) {} twoMessagesRun := by
  decide +kernel

def twoMessages : World :=
  (replay (World.step [1, 2, 3, 4, 5]) {} twoMessagesRun).get twoMessagesRun_through

def passedOverRun : List Event :=
  threeHostsRun ++ [.start 4] ++ mainSteps 3 1 ++ mainSteps 0 4 ++ mainSteps 1 2 ++ [.crash 0] ++
  mainSteps 1 1 ++ mainSteps 2 1 ++ detectLeaderRun 2 ++ mainSteps 2 8 ++
  [.start 5] ++ mainSteps 4 3 ++ mainSteps 2 10 ++ mainSteps 4 1 ++
  [.start 1] ++ mainSteps 5 3 ++ mainSteps 2 4 ++ mainSteps 4 2

theorem passedOverRun_through :
    (replay (World.step [1, 2, 3, 4, 5]) {} passedOverRun).isSome = true := by
  decide +kernel

def passedOver : World :=
  (replay (World.step [1, 2, 3, 4, 5]) {} passedOverRun).get passedOverRun_through

end GroupComm.Lab2
