import GroupComm.Lab2.Views

/-!
# The numbers of the views

`modifyGroupMembership` counts the view identifier on; the takeover of a new leader that finds
no pending request announces a group without the old leader and does not.  A new leader that
has not received the view made last counts from the one before it, and a process that finds no
leader counts from the beginning.

* `Orderly` says which runs are meant: one change at a time, one group, and nobody takes over
  beside a process that leads.
* `CountsOn` is the condition on whoever comes to lead.
* In the runs that keep to both, `Numbered` holds: one process leads or takes over, and the views
  are numbered as they are made.
-/

namespace GroupComm.Lab2

open MembershipService World Transition

/-! ## The runs -/

/-- The places of a process that leads or takes over. -/
def MainState.governs : MainState → Bool
  | startAsLeader => true
  | accept => true
  | addPeer _ => true
  | sendNewLeaderMsg _ _ _ => true
  | introduce _ _ _ _ _ => true
  | waitForPendingRequestMsg _ _ => true
  | completeRequest _ => true
  | _ => false

/-- The places of a process that looks for a leader, up to its own first view. -/
def MainState.starts : MainState → Bool
  | findLeader _ => true
  | startAsLeader => true
  | _ => false

/-- The places of a process that leads. -/
def MainState.heading : MainState → Bool
  | accept => true
  | addPeer _ => true
  | completeRequest _ => true
  | _ => false

/-- No other process leads or takes over. -/
def World.Alone (s : World) (i : ProcId) : Prop :=
  ∀ j < s.started, j ≠ i → (s.processes j).main.governs = false

instance (s : World) (i : ProcId) : Decidable (s.Alone i) :=
  inferInstanceAs (Decidable (∀ j < s.started, _ → _))

/-- What the main thread of process `i` may do at a place. -/
def World.InOrder (s : World) (i : ProcId) : MainState → Prop
  | .findLeader [] => s.Alone i
  | .accept => (s.processes i).detector = none
  | .handleLeaderCrash =>
      nextLeader (s.processes i).me (s.processes i).heartBeats.getAlivePeers =
        (s.processes i).me → s.Alone i
  | _ => True

/-- One group changes once at a time; nobody starts to lead or takes over beside a process that
leads. -/
def Orderly (s : World) : Event → Prop
  | .tick i order =>
      (s.processes i).startsDeletion order = true → (s.processes i).main = .accept
  | .run i .main => s.InOrder i (s.processes i).main
  | _ => True

/-- Whoever comes to lead at a place counts on: no view has been made when a group is founded, and
whoever completes a takeover has received the view made last and has found a request to
complete. -/
def World.Counts (s : World) (i : ProcId) : MainState → Prop
  | .findLeader [] => s.views.length = 0
  | .waitForPendingRequestMsg [] pendingRequestMsg =>
      (s.processes i).service.viewId.toNat = s.views.length ∧
        pendingRequestMsg.operationType ≠ .NOTHING
  | _ => True

def CountsOn (s : World) : Event → Prop
  | .run i .main => s.Counts i (s.processes i).main
  | _ => True

instance decidableInOrder (s : World) (i : ProcId) : DecidablePred (s.InOrder i)
  | .findLeader [] => inferInstanceAs (Decidable (s.Alone i))
  | .accept => inferInstanceAs (Decidable (_ = _))
  | .handleLeaderCrash => inferInstanceAs (Decidable (_ → _))
  | .findLeader (_ :: _) | .startAsLeader | .addPeer _ | .startAsFollower | .sendOkMsg
  | .waitForLeaderCrash | .sendNewLeaderMsg _ _ _ | .introduce _ _ _ _ _
  | .waitForPendingRequestMsg _ _ | .completeRequest _ | .waitForNewLeaderMsg | .greet _
  | .sendPendingRequestMsg | .stopped => .isTrue trivial

instance decidableOrderly (s : World) : DecidablePred (Orderly s)
  | .tick _ _ => inferInstanceAs (Decidable (_ → _))
  | .run _ .main => decidableInOrder s _ _
  | .start _ | .crash _ | .heartBeat _ _ | .run _ .detector | .fail _ _ => .isTrue trivial

instance decidableCounts (s : World) (i : ProcId) : DecidablePred (s.Counts i)
  | .findLeader [] => inferInstanceAs (Decidable (_ = _))
  | .waitForPendingRequestMsg [] _ => inferInstanceAs (Decidable (_ ∧ _))
  | .findLeader (_ :: _) | .startAsLeader | .accept | .addPeer _ | .startAsFollower | .sendOkMsg
  | .waitForLeaderCrash | .handleLeaderCrash | .sendNewLeaderMsg _ _ _ | .introduce _ _ _ _ _
  | .waitForPendingRequestMsg (_ :: _) _ | .completeRequest _ | .waitForNewLeaderMsg | .greet _
  | .sendPendingRequestMsg | .stopped => .isTrue trivial

instance decidableCountsOn (s : World) : DecidablePred (CountsOn s)
  | .run _ .main => decidableCounts s _ _
  | .start _ | .crash _ | .heartBeat _ _ | .tick _ _ | .run _ .detector | .fail _ _ =>
      .isTrue trivial

/-! ## What a process keeps -/

namespace Process

/-- One change at a time; a view identifier of its own only after the start. -/
structure Regular (pr : Process) : Prop where
  steady : pr.Steady
  deleting : pr.detector ≠ none → pr.main = .accept
  starting : pr.main.starts = true → pr.service.viewId = 1

theorem Regular.idle {pr : Process} (h : pr.Regular) (elsewhere : pr.main ≠ .accept) :
    pr.detector = none := by
  by_contra busy
  exact elsewhere (h.deleting busy)

/-- A thread goes on in `modifyGroupMembership`. -/
theorem Regular.setOperation {pr data : Process} {t : Thread} {operation onward : Operation}
    (h : pr.Regular) (place : pr.operation t = some operation)
    (steady : (data.setOperation onward t).Steady) (main : data.main = pr.main)
    (detector : data.detector = pr.detector) : (data.setOperation onward t).Regular := by
  have moved := operation_setOperation place main detector onward
  rcases operation_cases place with ⟨rfl, here⟩ | ⟨rfl, here⟩ | ⟨rfl, here⟩
  · refine ⟨steady, fun busy => ?_, fun starts => ?_⟩
    · exact absurd ((moved .detector).trans (h.idle (by rw [here]; exact nofun))) busy
    · rw [setOperation_addPeer (main.trans here)] at starts
      cases starts
  · refine ⟨steady, fun busy => ?_, fun starts => ?_⟩
    · exact absurd ((moved .detector).trans (h.idle (by rw [here]; exact nofun))) busy
    · rw [setOperation_completeRequest (main.trans here)] at starts
      cases starts
  · have accepts : data.main = .accept :=
      main.trans (h.deleting (by rw [here]; exact Option.some_ne_none _))
    refine ⟨steady, fun _ => accepts, fun starts => ?_⟩
    change data.main.starts = true at starts
    rw [accepts] at starts
    cases starts

theorem Regular.tick {pr : Process} (h : pr.Regular) {order : List PeerId}
    (idle : pr.startsDeletion order = true → pr.main = .accept) : (pr.tick order).Regular := by
  have steady : (pr.tick order).Steady := h.steady.tick fun deletes => by rw [idle deletes]; rfl
  cases deletes : pr.startsDeletion order with
  | true =>
      have accepts := idle deletes
      obtain ⟨leaderCrashed, detector, heartBeats, suspect, same⟩ := pr.tick_eq order
      refine ⟨steady, fun _ => by rw [same]; exact accepts, fun starts => ?_⟩
      rw [same] at starts
      change pr.main.starts = true at starts
      rw [accepts] at starts
      cases starts
  | false =>
      obtain ⟨leaderCrashed, heartBeats, suspect, same⟩ := tick_undeleting deletes
      rw [same] at steady ⊢
      exact ⟨steady, h.deleting, h.starting⟩

end Process

open Process

theorem ThreadStep.regular {pr next : Process} {t : Thread} {label : Label}
    (step : ThreadStep pr t label next) (h : pr.Regular)
    (alone : ∀ close k p, label = .accepted close k p → pr.main = .accept → pr.detector = none) :
    next.Regular := by
  have steady : next.Steady := by
    apply step.steady h.steady
    rintro (⟨k, p, rfl⟩ | ⟨close, k, p, rfl⟩)
    · apply h.idle
      intro accepts
      cases step with
      | dies fatal => cases fatal
      | leaderFound place _ =>
          rw [place] at accepts
          cases accepts
      | reconnect place =>
          rw [place] at accepts
          cases accepts
    · by_cases accepts : pr.main = .accept
      · exact alone close k p rfl accepts
      · exact h.idle accepts
  -- the main thread is outside `modifyGroupMembership`
  have outside {place : MainState} (here : pr.main = place) (other : place ≠ .accept)
      (detector : next.detector = pr.detector)
      (starting : next.main.starts = true → next.service.viewId = 1) : next.Regular :=
    ⟨steady, fun busy => absurd (detector.trans (h.idle (here ▸ other))) busy, starting⟩
  have before {place : MainState} (here : pr.main = place) (starts : place.starts = true) :
      pr.service.viewId = 1 := h.starting (by rw [here]; exact starts)
  cases step with
  | dies _ => exact ⟨steady, fun busy => absurd rfl busy, nofun⟩
  | call place => exact h.setOperation place steady rfl rfl
  | lock place free => exact h.setOperation place steady rfl rfl
  | sendRequestMsg place found => exact h.setOperation place steady rfl rfl
  | requestsSent place => exact h.setOperation place steady rfl rfl
  | waitForOkMsg place found expected => exact h.setOperation place steady rfl rfl
  | newView place => exact h.setOperation place steady rfl rfl
  | printNewlyInstalledView place free => exact h.setOperation place steady rfl rfl
  | sendNewViewMsg place => exact h.setOperation place steady rfl rfl
  | lockView place free => exact h.setOperation place steady rfl rfl
  | deliver place found => exact h.setOperation place steady rfl rfl
  | delivered place =>
      rcases operation_cases place with ⟨rfl, here⟩ | ⟨rfl, here⟩ | ⟨rfl, here⟩
      · rw [finishOperation_addPeer here] at steady ⊢
        exact ⟨steady, fun _ => rfl, nofun⟩
      · rw [finishOperation_completeRequest here] at steady ⊢
        exact ⟨steady, fun _ => rfl, nofun⟩
      · have accepts := h.deleting (by rw [here]; exact Option.some_ne_none _)
        refine ⟨steady, fun _ => accepts, fun starts => ?_⟩
        change pr.main.starts = true at starts
        rw [accepts] at starts
        cases starts
  | skipMyself place => exact outside place nofun rfl fun _ => before place rfl
  | leaderFound place other => exact outside place nofun rfl nofun
  | noLeaderThere place other => exact outside place nofun rfl fun _ => before place rfl
  | noLeaderFound place => exact outside place nofun rfl fun _ => before place rfl
  | startAsLeader place free => exact outside place nofun rfl nofun
  | accept place =>
      have idle := alone _ _ _ rfl place
      exact ⟨steady, fun busy => absurd idle busy, nofun⟩
  | @followerReceives k m place found free =>
      cases m with
      | request m => exact outside place nofun rfl nofun
      | newView m =>
          refine outside place nofun rfl fun starts => ?_
          change pr.main.starts = true at starts
          rw [place] at starts
          cases starts
      | ok m => exact ⟨steady, fun busy => absurd rfl busy, nofun⟩
      | newLeader m => exact ⟨steady, fun busy => absurd rfl busy, nofun⟩
  | leaderLost place found => exact outside place nofun rfl nofun
  | sendOkMsg place found => exact outside place nofun rfl nofun
  | okMsgFailed place found => exact outside place nofun rfl nofun
  | waitForLeaderCrash place crashed => exact outside place nofun rfl nofun
  | handleLeaderCrash place idle =>
      unfold Process.handleLeaderCrash at outside steady ⊢
      dsimp only at outside steady ⊢
      split
      · rename_i elected
        rw [if_pos elected] at steady
        exact ⟨steady, fun busy => absurd idle busy, nofun⟩
      · rename_i other
        rw [if_neg other] at steady
        exact ⟨steady, fun busy => absurd idle busy, nofun⟩
  | reconnect place => exact outside place nofun rfl nofun
  | unreachable place => exact outside place nofun rfl nofun
  | reconnected place => exact outside place nofun rfl nofun
  | introduce place => exact outside place nofun rfl nofun
  | introduceFailed place => exact outside place nofun rfl nofun
  | pendingRequest place found => exact outside place nofun rfl nofun
  | notConnected place missing => exact outside place nofun rfl nofun
  | completeRequest place pending => exact outside place nofun rfl nofun
  | nothingPending place nothing => exact outside place nofun rfl nofun
  | waitForNewLeaderMsg place => exact outside place nofun rfl nofun
  | greet place => exact outside place nofun rfl nofun
  | sendPendingRequestMsg place found => exact outside place nofun rfl nofun

/-- **Who leads.**  A step in which no view is made: whoever begins to lead or to take over was
in order to do so, and whoever leads has the view identifier that it had, or has completed a
takeover. -/
theorem ThreadStep.governs {pr next : Process} {t : Thread} {label : Label}
    (step : ThreadStep pr t label next) (n : ℕ) (alone : Prop) (made : label.created = [])
    (finds : label = .silent [] → t = .main → pr.main = .findLeader [] → alone ∧ n = 0)
    (elects : label = .silent [] → t = .main → pr.main = .handleLeaderCrash →
      nextLeader pr.me pr.heartBeats.getAlivePeers = pr.me → alone)
    (completes : label = .silent [] → t = .main → ∀ m,
      pr.main = .waitForPendingRequestMsg [] m → pr.service.viewId.toNat = n)
    (first : pr.main = .startAsLeader → n = 0)
    (newest : pr.main.heading = true → pr.service.viewId.toNat = n) :
    (next.main.governs = true → pr.main.governs = true ∨ alone) ∧
      (next.main = .startAsLeader → n = 0) ∧
      (next.main.heading = true → next.service.viewId.toNat = n) := by
  -- a place that does not lead
  have quiet (follows : next.main.governs = false) :
      (next.main.governs = true → pr.main.governs = true ∨ alone) ∧
        (next.main = .startAsLeader → n = 0) ∧
        (next.main.heading = true → next.service.viewId.toNat = n) := by
    refine ⟨fun governs => ?_, fun place => ?_, fun heading => ?_⟩
    · rw [follows] at governs
      cases governs
    · rw [place] at follows
      cases follows
    · revert follows heading
      cases next.main <;> simp [MainState.governs, MainState.heading]
  -- a thread goes on in `modifyGroupMembership`
  have goesOn (data : Process) {t : Thread} {operation onward : Operation}
      (place : pr.operation t = some operation) (main : data.main = pr.main)
      (viewId : data.service.viewId = pr.service.viewId)
      (goes : data.setOperation onward t = next) :
      (next.main.governs = true → pr.main.governs = true ∨ alone) ∧
        (next.main = .startAsLeader → n = 0) ∧
        (next.main.heading = true → next.service.viewId.toNat = n) := by
    subst goes
    rw [service_setOperation, viewId]
    rcases operation_cases place with ⟨rfl, here⟩ | ⟨rfl, here⟩ | ⟨rfl, here⟩
    · rw [setOperation_addPeer (main.trans here)]
      exact ⟨fun _ => Or.inl (by rw [here]; rfl), nofun, fun _ => newest (by rw [here]; rfl)⟩
    · rw [setOperation_completeRequest (main.trans here)]
      exact ⟨fun _ => Or.inl (by rw [here]; rfl), nofun, fun _ => newest (by rw [here]; rfl)⟩
    · change (data.main.governs = true → _) ∧ (data.main = _ → _) ∧ (data.main.heading = true → _)
      rw [main]
      exact ⟨Or.inl, first, newest⟩
  -- the takeover goes on
  have takesOver {place : MainState} (here : pr.main = place) (governs : place.governs = true)
      (other : next.main ≠ .startAsLeader) (heads : next.main.heading = false) :
      (next.main.governs = true → pr.main.governs = true ∨ alone) ∧
        (next.main = .startAsLeader → n = 0) ∧
        (next.main.heading = true → next.service.viewId.toNat = n) := by
    refine ⟨fun _ => Or.inl (by rw [here]; exact governs), fun place => absurd place other,
      fun heading => ?_⟩
    rw [heads] at heading
    cases heading
  cases step with
  | dies _ => exact quiet rfl
  | call place => exact goesOn { pr with service := pr.service.countRequest } place rfl rfl rfl
  | @lock t m place free =>
      refine goesOn (pr.beginOperation m) place rfl ?_ rfl
      change (if m.operationType = .DEL then _ else _ : MembershipService Socket).viewId = _
      split <;> rfl
  | sendRequestMsg place found => exact goesOn pr place rfl rfl rfl
  | requestsSent place => exact goesOn pr place rfl rfl rfl
  | waitForOkMsg place found expected => exact goesOn pr place rfl rfl rfl
  | newView place => cases made
  | printNewlyInstalledView place free => exact goesOn pr place rfl rfl rfl
  | sendNewViewMsg place => exact goesOn pr place rfl rfl rfl
  | lockView place free => exact goesOn pr place rfl rfl rfl
  | deliver place found => exact goesOn pr place rfl rfl rfl
  | delivered place =>
      rcases operation_cases place with ⟨rfl, here⟩ | ⟨rfl, here⟩ | ⟨rfl, here⟩
      · rw [finishOperation_addPeer here]
        exact ⟨fun _ => Or.inl (by rw [here]; rfl), nofun, fun _ => newest (by rw [here]; rfl)⟩
      · rw [finishOperation_completeRequest here]
        exact ⟨fun _ => Or.inl (by rw [here]; rfl), nofun, fun _ => newest (by rw [here]; rfl)⟩
      · exact ⟨Or.inl, first, newest⟩
  | skipMyself place => exact quiet rfl
  | leaderFound place other => exact quiet rfl
  | noLeaderThere place other => exact quiet rfl
  | noLeaderFound place =>
      obtain ⟨sole, none⟩ := finds rfl rfl place
      exact ⟨fun _ => Or.inr sole, fun _ => none, nofun⟩
  | startAsLeader place free => cases made
  | accept place =>
      exact ⟨fun _ => Or.inl (by rw [place]; rfl), nofun, fun _ => newest (by rw [place]; rfl)⟩
  | @followerReceives k m place found free =>
      cases m with
      | request m => exact quiet rfl
      | newView m =>
          apply quiet
          change pr.main.governs = false
          rw [place]
          rfl
      | ok m => exact quiet rfl
      | newLeader m => exact quiet rfl
  | leaderLost place found => exact quiet rfl
  | sendOkMsg place found => exact quiet rfl
  | okMsgFailed place found => exact quiet rfl
  | waitForLeaderCrash place crashed => exact quiet rfl
  | handleLeaderCrash place idle =>
      unfold Process.handleLeaderCrash
      dsimp only
      split
      · rename_i elected
        exact ⟨fun _ => Or.inr (elects rfl rfl place elected), nofun, nofun⟩
      · exact ⟨nofun, nofun, nofun⟩
  | reconnect place => exact takesOver place rfl nofun rfl
  | unreachable place => exact takesOver place rfl nofun rfl
  | reconnected place => exact takesOver place rfl nofun rfl
  | introduce place => exact takesOver place rfl nofun rfl
  | introduceFailed place => exact takesOver place rfl nofun rfl
  | pendingRequest place found => exact takesOver place rfl nofun rfl
  | notConnected place missing => exact takesOver place rfl nofun rfl
  | completeRequest place pending =>
      exact ⟨fun _ => Or.inl (by rw [place]; rfl), nofun, fun _ => completes rfl rfl _ place⟩
  | nothingPending place nothing => cases made
  | waitForNewLeaderMsg place => exact quiet rfl
  | greet place => exact quiet rfl
  | sendPendingRequestMsg place found => exact quiet rfl

/-! ## One leader, and the numbers of its views -/

/-- One process leads or takes over, and the views are numbered as they are made. -/
structure Numbered (s : World) : Prop where
  regular : ∀ i, (s.processes i).Regular
  sole : ∀ i j, (s.processes i).main.governs = true → (s.processes j).main.governs = true → i = j
  numbers : ∀ n creation, s.views[n]? = some creation → creation.view.viewId.toNat = n + 1
  first : ∀ i, (s.processes i).main = .startAsLeader → s.views.length = 0
  newest : ∀ i, (s.processes i).main.heading = true →
    (s.processes i).service.viewId.toNat = s.views.length

theorem MainState.governs_of_heading {main : MainState} (heading : main.heading = true) :
    main.governs = true := by
  cases main <;> simp_all [MainState.heading, MainState.governs]

theorem Process.running_of_governs {pr : Process} (governs : pr.main.governs = true) :
    pr.running = true := by
  unfold Process.running
  apply decide_eq_true
  intro stopped
  rw [stopped] at governs
  cases governs

namespace Numbered

variable {s s' : World} {i : ProcId} {next : Process}

/-- No view is made. -/
theorem replace (h : Numbered s) (wired : Wired s)
    (processes : s'.processes = Function.update s.processes i next) (views : s'.views = s.views)
    (regular : next.Regular)
    (governs : next.main.governs = true → (s.processes i).main.governs = true ∨ s.Alone i)
    (first : next.main = .startAsLeader → s.views.length = 0)
    (newest : next.main.heading = true → next.service.viewId.toNat = s.views.length) :
    Numbered s' := by
  have process : ∀ j, s'.processes j = if j = i then next else s.processes j := by
    intro j
    rw [processes, Function.update_apply]
  have other : ∀ j, next.main.governs = true → (s.processes j).main.governs = true → j = i := by
    intro j here there
    by_contra apart
    rcases governs here with before | alone
    · exact apart (h.sole j i there before)
    · rw [alone j (wired.started j (running_of_governs there)) apart] at there
      cases there
  refine ⟨fun j => ?_, fun j l governs governs' => ?_, by rw [views]; exact h.numbers,
    fun j place => ?_, fun j heading => ?_⟩
  · rw [process]
    split
    · exact regular
    · exact h.regular j
  · rw [process] at governs governs'
    split at governs
    · rename_i same
      split at governs'
      · rename_i same'
        exact same.trans same'.symm
      · exact same.trans (other l governs governs').symm
    · split at governs'
      · rename_i same'
        exact (other j governs' governs).trans same'.symm
      · exact h.sole j l governs governs'
  · rw [views]
    rw [process] at place
    split at place
    · exact first place
    · exact h.first j place
  · rw [views]
    rw [process] at heading ⊢
    split at heading
    · rename_i same
      rw [if_pos same]
      exact newest heading
    · rename_i same
      rw [if_neg same]
      exact h.newest j heading

/-- The process that governs makes a view. -/
theorem made (h : Numbered s) {creation : Creation}
    (processes : s'.processes = Function.update s.processes i next)
    (views : s'.views = s.views ++ [creation]) (regular : next.Regular)
    (governs : (s.processes i).main.governs = true) (started : next.main ≠ .startAsLeader)
    (viewId : next.service.viewId.toNat = s.views.length + 1)
    (number : creation.view.viewId = next.service.viewId) : Numbered s' := by
  have process : ∀ j, s'.processes j = if j = i then next else s.processes j := by
    intro j
    rw [processes, Function.update_apply]
  have length : s'.views.length = s.views.length + 1 := by
    rw [views, List.length_append, List.length_singleton]
  refine ⟨fun j => ?_, fun j l governs' governs'' => ?_, fun n c at_n => ?_, fun j place => ?_,
    fun j heading => ?_⟩
  · rw [process]
    split
    · exact regular
    · exact h.regular j
  · have here : ∀ j, (s'.processes j).main.governs = true → j = i := by
      intro j there
      rw [process] at there
      split at there
      · assumption
      · exact h.sole j i there governs
    rw [here j governs', here l governs'']
  · rw [views, List.getElem?_append] at at_n
    split at at_n
    · exact h.numbers n c at_n
    · rename_i more
      have last : n - s.views.length = 0 := by
        by_contra other
        rw [List.getElem?_eq_none (by rw [List.length_singleton]; omega)] at at_n
        cases at_n
      rw [last] at at_n
      cases at_n
      rw [number, viewId]
      omega
  · rw [process] at place
    split at place
    · exact absurd place started
    · rename_i apart
      exact absurd (h.sole j i (by rw [place]; rfl) governs) apart
  · rw [process] at heading ⊢
    split at heading
    · rename_i same
      rw [if_pos same, viewId, length]
    · rename_i apart
      exact absurd (h.sole j i (MainState.governs_of_heading heading) governs) apart

/-- Where a thread is in `modifyGroupMembership`, the process leads. -/
theorem heading_of_operation (h : Numbered s) {t : Thread} {operation : Operation}
    (place : (s.processes i).operation t = some operation) :
    (s.processes i).main.heading = true := by
  rcases operation_cases place with ⟨_, here⟩ | ⟨_, here⟩ | ⟨_, here⟩
  · rw [here]
    rfl
  · rw [here]
    rfl
  · rw [(h.regular i).deleting (by rw [here]; exact Option.some_ne_none _)]
    rfl

/-- The new view, and the first view of all. -/
theorem makes (h : Numbered s) {t : Thread} {created : List Creation}
    (step : ThreadStep (s.processes i) t (.silent created) next) (some : created ≠ [])
    (counts : t = .main → s.Counts i (s.processes i).main)
    (short : s.views.length + created.length < UInt32.size)
    (processes : s'.processes = Function.update s.processes i next)
    (views : s'.views = s.views ++ created) : Numbered s' := by
  have regular := step.regular (h.regular i) nofun
  cases step with
  | dies fatal => exact absurd fatal some
  | newView place =>
      rename_i m
      have heading := h.heading_of_operation place
      have viewId := h.newest i heading
      have counted : (((s.processes i).endOperation m).setOperation .printNewlyInstalledView
          t).service.viewId = (s.processes i).service.viewId + 1 := by
        rw [service_setOperation]
        rfl
      refine h.made processes views regular (MainState.governs_of_heading heading) ?_ ?_ ?_
      · rcases operation_cases place with ⟨rfl, here⟩ | ⟨rfl, here⟩ | ⟨rfl, here⟩
        · have ending : ((s.processes i).endOperation m).main = .addPeer (.waitForOkMsg m []) := here
          rw [setOperation_addPeer ending]
          exact nofun
        · have ending : ((s.processes i).endOperation m).main =
              .completeRequest (.waitForOkMsg m []) := here
          rw [setOperation_completeRequest ending]
          exact nofun
        · change (s.processes i).main ≠ _
          rw [(h.regular i).deleting (by rw [here]; exact Option.some_ne_none _)]
          exact nofun
      · rw [counted, UInt32.toNat_add, viewId]
        change (s.views.length + 1) % UInt32.size = _
        exact Nat.mod_eq_of_lt short
      · rw [counted]
        rfl
  | startAsLeader place free =>
      refine h.made processes views regular (by rw [place]; rfl) nofun ?_ rfl
      change (s.processes i).service.viewId.toNat = _
      rw [(h.regular i).starting (by rw [place]; rfl), h.first i place]
      rfl
  | nothingPending place nothing =>
      have newest := counts rfl
      rw [place] at newest
      exact absurd nothing newest.2
  | _ => exact absurd rfl some

/-- A thread takes a step in which no view is made. -/
theorem thread (h : Numbered s) (wired : Wired s) {t : Thread} {label : Label}
    (step : ThreadStep (s.processes i) t label next) (made : label.created = [])
    (inOrder : label = .silent [] ∨ (∃ close k p, label = .accepted close k p) → t = .main →
      s.InOrder i (s.processes i).main)
    (counts : label = .silent [] → t = .main → s.Counts i (s.processes i).main)
    (processes : s'.processes = Function.update s.processes i next)
    (views : s'.views = s.views) : Numbered s' := by
  have regular : next.Regular := by
    apply step.regular (h.regular i)
    rintro close k p rfl accepts
    have main : t = .main := by
      cases step with
      | dies fatal => cases fatal
      | accept => rfl
      | waitForNewLeaderMsg => rfl
    have idle := inOrder (Or.inr ⟨_, _, _, rfl⟩) main
    rw [accepts] at idle
    exact idle
  obtain ⟨governs, first, newest⟩ := step.governs s.views.length (s.Alone i) made
    (fun silent main place => by
      have alone := inOrder (Or.inl silent) main
      have first := counts silent main
      rw [place] at alone first
      exact ⟨alone, first⟩)
    (fun silent main place => by
      have elects := inOrder (Or.inl silent) main
      rw [place] at elects
      exact elects)
    (fun silent main m place => by
      have both := counts silent main
      rw [place] at both
      exact both.1)
    (h.first i) (h.newest i)
  exact h.replace wired processes views regular governs first newest

/-- **The views are numbered** in every step that is in order. -/
theorem step {hosts : List PeerId} {e : Event} (h : Numbered s) (wired : Wired s)
    (taken : s.step hosts e = some s') (orderly : Orderly s e) (newest : CountsOn s e)
    (short : s'.views.length < UInt32.size) : Numbered s' := by
  have unchanged {i : ProcId} {next : Process} (regular : next.Regular)
      (main : next.main = (s.processes i).main)
      (viewId : next.service.viewId = (s.processes i).service.viewId)
      (processes : s'.processes = Function.update s.processes i next) (views : s'.views = s.views) :
      Numbered s' :=
    h.replace wired processes views regular (by rw [main]; exact Or.inl)
      (by rw [main]; exact h.first i) (by rw [main, viewId]; exact h.newest i)
  -- the other end of a connection takes part
  have meets {i : ProcId} {t : Thread} {label : Label} {next : Process}
      (step : ThreadStep (s.processes i) t label next) (made : label.created = [])
      (silent : ∀ created, label ≠ .silent created)
      (accepted : ∀ close k p, label ≠ .accepted close k p)
      (processes : s'.processes = Function.update s.processes i next) (views : s'.views = s.views) :
      Numbered s' := by
    refine h.thread wired step made (fun either => ?_) (fun same => absurd same (silent _))
      processes views
    rcases either with same | ⟨_, _, _, same⟩
    · exact absurd same (silent _)
    · exact absurd same (accepted _ _ _)
  cases worldStep_of_step taken with
  | start listed down =>
      exact h.replace wired rfl rfl ⟨.of_idle rfl rfl, fun busy => absurd rfl busy, fun _ => rfl⟩
        nofun nofun nofun
  | crash running =>
      exact h.replace wired rfl rfl ⟨.of_idle rfl rfl, fun busy => absurd rfl busy, nofun⟩
        nofun nofun nofun
  | @heartBeat i p running idle other =>
      have regular : ((s.processes i).heartBeat p).Regular :=
        ⟨⟨(h.regular i).steady.idle, fun t operation place =>
          tells_congr ((h.regular i).steady.tells t operation (by cases t <;> exact place))
            rfl rfl rfl rfl⟩, (h.regular i).deleting, (h.regular i).starting⟩
      exact unchanged regular rfl rfl rfl rfl
  | @tick i order running idle all =>
      have regular := (h.regular i).tick orderly
      obtain ⟨leaderCrashed, detector, heartBeats, suspect, same⟩ := (s.processes i).tick_eq order
      exact unchanged (i := i) regular (by rw [same]) (by rw [same]) rfl rfl
  | @silent i t created next running step =>
      have counts : t = .main → s.Counts i (s.processes i).main := by
        rintro rfl
        exact newest
      cases created with
      | nil =>
          refine h.thread wired step rfl (fun _ main => ?_) (fun _ => counts) rfl
            (List.append_nil _)
          subst main
          exact orderly
      | cons creation created =>
          refine h.makes step (List.cons_ne_nil _ _) counts ?_ rfl rfl
          rw [← List.length_append]
          exact short
  | sent running step =>
      exact meets step rfl nofun nofun rfl rfl
  | failed running ended step =>
      exact meets step rfl nofun nofun rfl rfl
  | received running head step =>
      exact meets step rfl nofun nofun rfl rfl
  | lost running empty ended step =>
      exact meets step rfl nofun nofun rfl rfl
  | connected running known listens step =>
      exact meets step rfl nofun nofun rfl rfl
  | refused running deaf step =>
      exact meets step rfl nofun nofun rfl rfl
  | accepted running head step =>
      refine h.thread wired step rfl (fun _ main => ?_) nofun rfl rfl
      subst main
      exact orderly

end Numbered

end GroupComm.Lab2
