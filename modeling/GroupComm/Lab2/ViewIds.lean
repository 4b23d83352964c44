import GroupComm.Lab2.ViewNumbers

/-!
# What a view identifier names

A process reads views from one connection at a time, and what it has read and what is on the way
to it are views in the order in which they were made (`Streams`).  With the numbers of the views
(`Numbered`) this makes a view identifier name one view (`NamesOneView`) as long as every takeover
finds a request to complete and counts on from the view made last
(`view_ids_of_countsOn`).  `view_id_reused` refutes it without this condition.
-/

namespace GroupComm.Lab2

open MembershipService World Transition Process

/-- A view identifier names one view. -/
structure NamesOneView (s : World) : Prop where
  /-- The identifier grows whenever the members change. -/
  increasing : ∀ i, (s.processes i).installed.IsChain fun v v' =>
    v.members ≠ v'.members → v.viewId < v'.viewId
  one : ∀ i j, ∀ v ∈ (s.processes i).installed, ∀ v' ∈ (s.processes j).installed,
    v.viewId = v'.viewId → v.members = v'.members

/-! ## What a process reads views from -/

/-- The places at which a process reads from its leader, now or next. -/
def MainState.attends : MainState → Bool
  | startAsFollower => true
  | sendOkMsg => true
  | sendPendingRequestMsg => true
  | _ => false

namespace Process

/-- The process reads views on this connection, or will. -/
def Tunes (pr : Process) (k : Socket) : Prop :=
  pr.main.attends = true ∧ pr.service.tcpClientMap pr.service.leaderPeerId = some k ∨
    pr.main = .greet k

theorem not_tunes {pr : Process} {k : Socket} (attends : pr.main.attends = false)
    (greets : ∀ k, pr.main ≠ .greet k) : ¬ pr.Tunes k := by
  rintro (⟨attends', _⟩ | place)
  · rw [attends] at attends'
    cases attends'
  · exact greets k place

theorem not_tunes_of_heading {pr : Process} {k : Socket} (heading : pr.main.heading = true) :
    ¬ pr.Tunes k := by
  apply not_tunes
  · revert heading
    cases pr.main <;> simp [MainState.heading, MainState.attends]
  · intro k place
    rw [place] at heading
    cases heading

theorem Regular.heading_setOperation {pr : Process} {t : Thread} {operation onward : Operation}
    (h : pr.Regular) (data : Process) (place : pr.operation t = some operation)
    (main : data.main = pr.main) :
    (data.setOperation onward t).main.heading = true := by
  rcases operation_cases place with ⟨rfl, here⟩ | ⟨rfl, here⟩ | ⟨rfl, here⟩
  · rw [setOperation_addPeer (main.trans here)]
    rfl
  · rw [setOperation_completeRequest (main.trans here)]
    rfl
  · change data.main.heading = true
    rw [main, h.deleting (by rw [here]; exact Option.some_ne_none _)]
    rfl

theorem Regular.heading_finishOperation {pr : Process} {t : Thread} {operation : Operation}
    (h : pr.Regular) (place : pr.operation t = some operation) :
    (pr.finishOperation t).main.heading = true := by
  rcases operation_cases place with ⟨rfl, here⟩ | ⟨rfl, here⟩ | ⟨rfl, here⟩
  · rw [finishOperation_addPeer here]
    rfl
  · rw [finishOperation_completeRequest here]
    rfl
  · change pr.main.heading = true
    rw [h.deleting (by rw [here]; exact Option.some_ne_none _)]
    rfl

end Process

/-- Where a process gets the connection from which it reads. -/
theorem ThreadStep.tunes {pr next : Process} {t : Thread} {label : Label}
    (step : ThreadStep pr t label next) (h : pr.Regular) (sound : pr.Sound) :
    (∀ k, next.Tunes k → pr.Tunes k ∨ (∃ p, label = .connected p k) ∨
      ∃ p, label = .accepted true k p) ∧
    (next.main = .waitForNewLeaderMsg →
      pr.main = .waitForNewLeaderMsg ∨ pr.main = .handleLeaderCrash) := by
  have leads (heading : next.main.heading = true) :
      (∀ k, next.Tunes k → pr.Tunes k ∨ (∃ p, label = .connected p k) ∨
        ∃ p, label = .accepted true k p) ∧
      (next.main = .waitForNewLeaderMsg →
        pr.main = .waitForNewLeaderMsg ∨ pr.main = .handleLeaderCrash) := by
    refine ⟨fun k tunes => absurd tunes (not_tunes_of_heading heading), fun place => ?_⟩
    rw [place] at heading
    cases heading
  have deaf (attends : next.main.attends = false) (greets : ∀ k, next.main ≠ .greet k)
      (waits : next.main ≠ .waitForNewLeaderMsg) :
      (∀ k, next.Tunes k → pr.Tunes k ∨ (∃ p, label = .connected p k) ∨
        ∃ p, label = .accepted true k p) ∧
      (next.main = .waitForNewLeaderMsg →
        pr.main = .waitForNewLeaderMsg ∨ pr.main = .handleLeaderCrash) :=
    ⟨fun k tunes => absurd tunes (not_tunes attends greets), fun place => absurd place waits⟩
  have goesOn (attends : pr.main.attends = true) (greets : ∀ k, next.main ≠ .greet k)
      (waits : next.main ≠ .waitForNewLeaderMsg)
      (found : ∀ k, next.service.tcpClientMap next.service.leaderPeerId = some k →
        pr.service.tcpClientMap pr.service.leaderPeerId = some k) :
      (∀ k, next.Tunes k → pr.Tunes k ∨ (∃ p, label = .connected p k) ∨
        ∃ p, label = .accepted true k p) ∧
      (next.main = .waitForNewLeaderMsg →
        pr.main = .waitForNewLeaderMsg ∨ pr.main = .handleLeaderCrash) := by
    refine ⟨fun k tunes => ?_, fun place => absurd place waits⟩
    rcases tunes with ⟨_, at_k⟩ | place
    · exact Or.inl (Or.inl ⟨attends, found k at_k⟩)
    · exact absurd place (greets k)
  cases step with
  | dies _ => exact deaf rfl nofun nofun
  | call place =>
      exact leads (h.heading_setOperation { pr with service := pr.service.countRequest } place rfl)
  | lock place free => exact leads (h.heading_setOperation (pr.beginOperation _) place rfl)
  | sendRequestMsg place found => exact leads (h.heading_setOperation pr place rfl)
  | requestsSent place => exact leads (h.heading_setOperation pr place rfl)
  | waitForOkMsg place found expected => exact leads (h.heading_setOperation pr place rfl)
  | newView place => exact leads (h.heading_setOperation (pr.endOperation _) place rfl)
  | printNewlyInstalledView place free => exact leads (h.heading_setOperation pr place rfl)
  | sendNewViewMsg place => exact leads (h.heading_setOperation pr place rfl)
  | lockView place free => exact leads (h.heading_setOperation pr place rfl)
  | deliver place found => exact leads (h.heading_setOperation pr place rfl)
  | delivered place => exact leads (h.heading_finishOperation place)
  | skipMyself place => exact deaf rfl nofun nofun
  | @leaderFound peerId rest client place other =>
      refine ⟨fun k tunes => ?_, nofun⟩
      rcases tunes with ⟨_, found⟩ | greets
      · rcases insertClient_cases found with old | ⟨_, rfl⟩
        · have none : pr.service.tcpClientMap peerId = none := sound.searching _ place peerId
          change pr.service.tcpClientMap peerId = some k at old
          rw [none] at old
          cases old
        · exact Or.inr (Or.inl ⟨_, rfl⟩)
      · cases greets
  | noLeaderThere place other => exact deaf rfl nofun nofun
  | noLeaderFound place => exact deaf rfl nofun nofun
  | startAsLeader place free => exact leads rfl
  | accept place => exact leads rfl
  | @followerReceives k m place found free =>
      have attends : pr.main.attends = true := by rw [place]; rfl
      cases m with
      | request m => exact goesOn attends nofun nofun fun _ => id
      | newView m =>
          have main : (pr.followerReceives (.newView m)).main = .startAsFollower := place
          exact goesOn attends (by rw [main]; exact nofun) (by rw [main]; exact nofun) fun _ => id
      | ok m => exact deaf rfl nofun nofun
      | newLeader m => exact deaf rfl nofun nofun
  | leaderLost place found => exact deaf rfl nofun nofun
  | sendOkMsg place found => exact goesOn (by rw [place]; rfl) nofun nofun fun _ => id
  | okMsgFailed place found => exact deaf rfl nofun nofun
  | waitForLeaderCrash place crashed => exact deaf rfl nofun nofun
  | handleLeaderCrash place idle =>
      unfold Process.handleLeaderCrash
      dsimp only
      split
      · exact ⟨fun k tunes => absurd tunes (not_tunes rfl nofun), nofun⟩
      · exact ⟨fun k tunes => absurd tunes (not_tunes rfl nofun), fun _ => Or.inr place⟩
  | reconnect place => exact deaf rfl nofun nofun
  | unreachable place => exact deaf rfl nofun nofun
  | reconnected place => exact deaf rfl nofun nofun
  | introduce place => exact deaf rfl nofun nofun
  | introduceFailed place => exact deaf rfl nofun nofun
  | pendingRequest place found => exact deaf rfl nofun nofun
  | notConnected place missing => exact deaf rfl nofun nofun
  | completeRequest place pending => exact leads rfl
  | nothingPending place nothing => exact leads rfl
  | waitForNewLeaderMsg place =>
      refine ⟨fun k tunes => ?_, nofun⟩
      rcases tunes with ⟨attends, _⟩ | greets
      · cases attends
      · cases greets
        exact Or.inr (Or.inr ⟨_, rfl⟩)
  | greet place =>
      refine ⟨fun k tunes => ?_, nofun⟩
      rcases tunes with ⟨_, found⟩ | greets
      · have same := sound.greeting _ place k found
        subst same
        exact Or.inl (Or.inr place)
      · cases greets
  | sendPendingRequestMsg place found =>
      exact goesOn (by rw [place]; rfl) nofun nofun fun _ => id

/-- A step that accepts a connection with `TcpServer::close` waits for a new leader. -/
theorem ThreadStep.accepts_leader {pr next : Process} {t : Thread} {k : Socket} {p : PeerId}
    (step : ThreadStep pr t (.accepted true k p) next) : pr.main = .waitForNewLeaderMsg := by
  cases step with
  | dies fatal => cases fatal
  | waitForNewLeaderMsg place => exact place

/-! ## What is on the way -/

/-- The views are in the order of their identifiers. -/
def Ascending (views : List View) : Prop :=
  views.Pairwise fun v v' => v.viewId ≤ v'.viewId

theorem Ascending.concat {views : List View} {view : View} (ascending : Ascending views)
    (newest : ∀ v ∈ views, v.viewId ≤ view.viewId) : Ascending (views ++ [view]) := by
  refine List.pairwise_append.mpr ⟨ascending, List.pairwise_singleton _ _, fun v mem v' mem' => ?_⟩
  rw [List.mem_singleton.mp mem']
  exact newest v mem

/-- The process at a socket reads views on it, or may yet accept it to do so. -/
def World.Tuned (s : World) (k : Socket) : Prop :=
  (s.processes (s.owner k)).Tunes k ∨
    (s.processes (s.owner k)).main = .waitForNewLeaderMsg ∧ k ∈ s.backlog (s.owner k)

def World.known (s : World) : List View :=
  s.views.map Creation.view

/-- What has been read, and what is still to be read, is in order. -/
structure Streams (s : World) : Prop where
  installed : ∀ i, ∀ v ∈ (s.processes i).installed, v ∈ s.known
  sorted : ∀ i, Ascending (s.processes i).installed
  announced : ∀ k, ∀ v ∈ viewsIn (s.inbox k),
    v ∈ s.known ∧ (s.processes (s.owner k)).me ∈ v.members
  stream : ∀ k, s.Tuned k → Ascending (s.stream k)

namespace Streams

variable {s s' : World} {i : ProcId} {next : Process}

theorem opened (wired : Wired s) {k : Socket} (nonempty : viewsIn (s.inbox k) ≠ []) :
    k.connection < s.opened := by
  by_contra unopened
  exact nonempty (by rw [wired.unopened k (Nat.le_of_not_lt unopened)]; rfl)

/-- Nobody installs a view, nothing is announced, and nobody begins to read. -/
theorem frame (h : Streams s) (wired : Wired s) (views : s'.views = s.views)
    (installed : ∀ j, (s'.processes j).installed = (s.processes j).installed ∨
      (s'.processes j).installed = [])
    (same : ∀ j < s.started, (s'.processes j).me = (s.processes j).me ∧
      (s'.processes j).installed = (s.processes j).installed)
    (owner : ∀ k : Socket, k.connection < s.opened → s'.owner k = s.owner k)
    (inbox : ∀ k, (viewsIn (s'.inbox k)).Sublist (viewsIn (s.inbox k)))
    (tuned : ∀ k : Socket, k.connection < s.opened → s'.Tuned k → s.Tuned k) : Streams s' := by
  have known : s'.known = s.known := congrArg (List.map Creation.view) views
  have sorted : ∀ j, Ascending (s'.processes j).installed := by
    intro j
    rcases installed j with kept | none
    · rw [kept]
      exact h.sorted j
    · rw [none]
      exact List.Pairwise.nil
  -- a socket on which a view is on its way
  have before : ∀ k, viewsIn (s'.inbox k) ≠ [] → k.connection < s.opened ∧
      (s'.processes (s'.owner k)).me = (s.processes (s.owner k)).me ∧
        (s'.processes (s'.owner k)).installed = (s.processes (s.owner k)).installed := by
    intro k some
    have less : k.connection < s.opened := by
      apply opened wired
      intro none
      exact some (List.sublist_nil.mp (none ▸ inbox k))
    rw [owner k less]
    exact ⟨less, same _ (wired.owners k less)⟩
  refine ⟨fun j v mem => ?_, sorted, fun k v mem => ?_, fun k tunes => ?_⟩
  · rw [known]
    rcases installed j with kept | none
    · rw [kept] at mem
      exact h.installed j v mem
    · rw [none] at mem
      cases mem
  · obtain ⟨less, me, _⟩ := before k (List.ne_nil_of_mem mem)
    rw [known, me]
    exact h.announced k v ((inbox k).mem mem)
  · unfold World.stream
    by_cases some : viewsIn (s'.inbox k) = []
    · rw [some, List.append_nil]
      exact sorted _
    · obtain ⟨less, _, kept⟩ := before k some
      rw [kept]
      exact (h.stream k (tuned k less tunes)).sublist ((inbox k).append_left _)

/-- One process changes, and reads on no connection that it did not read on or have waiting. -/
theorem replace (h : Streams s) (wired : Wired s) (me : next.me = (s.processes i).me)
    (installed : next.installed = (s.processes i).installed)
    (processes : s'.processes = Function.update s.processes i next) (views : s'.views = s.views)
    (owner : ∀ k : Socket, k.connection < s.opened → s'.owner k = s.owner k)
    (backlog : ∀ j, ∀ k ∈ s'.backlog j, k.connection < s.opened → k ∈ s.backlog j)
    (inbox : ∀ k, (viewsIn (s'.inbox k)).Sublist (viewsIn (s.inbox k)))
    (reads : ∀ k : Socket, k.connection < s.opened → next.Tunes k → (s.processes i).Tunes k ∨
      (s.processes i).main = .waitForNewLeaderMsg ∧ k ∈ s.backlog i)
    (waits : next.main = .waitForNewLeaderMsg →
      (s.processes i).main = .waitForNewLeaderMsg ∨ s.backlog i = []) : Streams s' := by
  have process : ∀ j, s'.processes j = if j = i then next else s.processes j := by
    intro j
    rw [processes, Function.update_apply]
  have kept : ∀ j, (s'.processes j).me = (s.processes j).me ∧
      (s'.processes j).installed = (s.processes j).installed := by
    intro j
    rw [process]
    split
    · rename_i same
      rw [same]
      exact ⟨me, installed⟩
    · exact ⟨rfl, rfl⟩
  refine h.frame wired views (fun j => Or.inl (kept j).2) (fun j _ => kept j) owner inbox
    fun k less tunes => ?_
  unfold World.Tuned at tunes ⊢
  rw [owner k less, process] at tunes
  by_cases own : s.owner k = i
  · rw [if_pos own] at tunes
    rw [own] at tunes ⊢
    rcases tunes with reading | ⟨place, mem⟩
    · exact reads k less reading
    · have mem := backlog i k mem less
      rcases waits place with before | none
      · exact Or.inr ⟨before, mem⟩
      · rw [none] at mem
        cases mem
  · rw [if_neg own] at tunes
    rcases tunes with reading | ⟨place, mem⟩
    · exact Or.inl reading
    · exact Or.inr ⟨place, backlog _ k mem less⟩

/-- A thread takes a step in which no view is made, sent or read. -/
theorem thread (h : Streams s) (wired : Wired s) (regular : (s.processes i).Regular) {t : Thread}
    {label : Label} (step : ThreadStep (s.processes i) t label next)
    (installed : next.installed = (s.processes i).installed)
    (connected : ∀ p k, label = .connected p k → s.opened ≤ k.connection)
    (accepted : ∀ close k p, label = .accepted close k p → k ∈ s.backlog i)
    (processes : s'.processes = Function.update s.processes i next) (views : s'.views = s.views)
    (owner : ∀ k : Socket, k.connection < s.opened → s'.owner k = s.owner k)
    (backlog : ∀ j, ∀ k ∈ s'.backlog j, k.connection < s.opened → k ∈ s.backlog j)
    (inbox : ∀ k, (viewsIn (s'.inbox k)).Sublist (viewsIn (s.inbox k))) : Streams s' := by
  obtain ⟨from_before, waits⟩ := step.tunes regular (wired.sound i)
  refine h.replace wired step.me_eq installed processes views owner backlog inbox
    (fun k less reading => ?_) fun place => ?_
  · rcases from_before k reading with before | ⟨p, connects⟩ | ⟨p, accepts⟩
    · exact Or.inl before
    · exact absurd less (Nat.not_lt.mpr (connected p k connects))
    · subst accepts
      exact Or.inr ⟨step.accepts_leader, accepted _ _ _ rfl⟩
  · rcases waits place with before | crashed
    · exact Or.inl before
    · exact Or.inr (wired.unheard i (by rw [crashed]; rfl) (by rw [crashed]; exact nofun))

/-- A view is announced that is the newest of all. -/
theorem deliver (h : Streams s) {k : Socket} {m : NewViewMsg} (made : m.view ∈ s.known)
    (newest : ∀ v ∈ s.known, v.viewId ≤ m.view.viewId)
    (member : (s.processes (s.owner k)).me ∈ m.view.members) :
    Streams (s.deliver k (.newView m)) := by
  have there : ∀ k', viewsIn ((s.deliver k (.newView m)).inbox k') =
      if k' = k then viewsIn (s.inbox k) ++ [m.view] else viewsIn (s.inbox k') := by
    intro k'
    change viewsIn (Function.update s.inbox k _ k') = _
    rw [Function.update_apply]
    split
    · exact viewsIn_append _ _
    · rfl
  refine ⟨h.installed, h.sorted, fun k' v mem => ?_, fun k' tunes => ?_⟩
  · rw [there] at mem
    split at mem
    · rename_i same
      subst same
      rcases List.mem_append.mp mem with before | new
      · exact h.announced k' v before
      · rw [List.mem_singleton.mp new]
        exact ⟨made, member⟩
    · exact h.announced k' v mem
  · have before : Ascending (s.stream k') := h.stream k' tunes
    change Ascending ((s.processes (s.owner k')).installed ++ viewsIn _)
    rw [there]
    split
    · rename_i same
      subst same
      rw [← List.append_assoc]
      apply before.concat
      intro v mem
      rcases List.mem_append.mp mem with read | coming
      · exact newest v (h.installed _ v read)
      · exact newest v (h.announced _ v coming).1
    · exact before

/-- Another message is sent. -/
theorem deliver_other (h : Streams s) {k : Socket} {m : Msg} (other : ∀ m', m ≠ .newView m') :
    Streams (s.deliver k m) := by
  have none : viewsIn [m] = [] := by
    cases m with
    | newView m => exact absurd rfl (other m)
    | request m => rfl
    | ok m => rfl
    | newLeader m => rfl
  have there : ∀ k', viewsIn ((s.deliver k m).inbox k') = viewsIn (s.inbox k') := by
    intro k'
    change viewsIn (Function.update s.inbox k _ k') = _
    rw [Function.update_apply]
    split
    · rename_i same
      rw [viewsIn_append, none, List.append_nil, same]
    · rfl
  refine ⟨h.installed, h.sorted, fun k' v mem => ?_, fun k' tunes => ?_⟩
  · rw [there] at mem
    exact h.announced k' v mem
  · change Ascending ((s.processes (s.owner k')).installed ++ viewsIn _)
    rw [there]
    exact h.stream k' tunes

/-- A process makes a view that is the newest of all, and reads none. -/
theorem makes (h : Streams s) {creation : Creation}
    (processes : s'.processes = Function.update s.processes i next)
    (views : s'.views = s.views ++ [creation]) (owner : s'.owner = s.owner)
    (backlog : s'.backlog = s.backlog) (inbox : s'.inbox = s.inbox)
    (me : next.me = (s.processes i).me)
    (installed : next.installed = (s.processes i).installed ++ [creation.view])
    (newest : ∀ v ∈ s.known, v.viewId ≤ creation.view.viewId)
    (heading : next.main.heading = true) : Streams s' := by
  have process : ∀ j, s'.processes j = if j = i then next else s.processes j := by
    intro j
    rw [processes, Function.update_apply]
  have known : s'.known = s.known ++ [creation.view] := by
    unfold World.known
    rw [views, List.map_append]
    rfl
  have before : ∀ v ∈ s.known, v ∈ s'.known := by
    intro v mem
    rw [known]
    exact List.mem_append_left _ mem
  refine ⟨fun j v mem => ?_, fun j => ?_, fun k v mem => ?_, fun k tunes => ?_⟩
  · rw [process] at mem
    split at mem
    · rw [installed] at mem
      rcases List.mem_append.mp mem with old | new
      · exact before v (h.installed i v old)
      · rw [known]
        exact List.mem_append_right _ new
    · exact before v (h.installed j v mem)
  · rw [process]
    split
    · rw [installed]
      exact (h.sorted i).concat fun v mem => newest v (h.installed i v mem)
    · exact h.sorted j
  · rw [inbox] at mem
    obtain ⟨made, member⟩ := h.announced k v mem
    refine ⟨before v made, ?_⟩
    rw [owner, process]
    split
    · rename_i own
      rw [me, ← own]
      exact member
    · exact member
  · unfold World.Tuned at tunes
    unfold World.stream
    rw [owner, process] at tunes ⊢
    rw [inbox]
    split
    · rename_i own
      rw [if_pos own] at tunes
      rcases tunes with reads | ⟨place, _⟩
      · exact absurd reads (not_tunes_of_heading heading)
      · rw [place] at heading
        cases heading
    · rename_i other
      rw [if_neg other, backlog] at tunes
      exact h.stream k tunes

/-- A follower reads a view, and installs it. -/
theorem reads (h : Streams s) {k : Socket} {m : NewViewMsg} {rest : List Msg}
    (place : (s.processes i).main = .startAsFollower)
    (found : (s.processes i).service.tcpClientMap (s.processes i).service.leaderPeerId = some k)
    (own : s.owner k = i) (head : s.inbox k = .newView m :: rest) :
    Streams ({ s with inbox := Function.update s.inbox k rest }.setProcess i
      ((s.processes i).followerReceives (.newView m))) := by
  have views : viewsIn (s.inbox k) = m.view :: viewsIn rest := by
    rw [head]
    rfl
  have reading : s.Tuned k := by
    refine Or.inl (Or.inl ?_)
    rw [own, place]
    exact ⟨rfl, found⟩
  obtain ⟨made, member⟩ := h.announced k m.view (by rw [views]; exact List.mem_cons_self)
  rw [own] at member
  have installs := Process.installed_followerReceives member
  -- what was to be read has been read
  have stream : s.stream k =
      ((s.processes i).followerReceives (.newView m)).installed ++ viewsIn rest := by
    unfold World.stream
    rw [own, views, installs, List.append_assoc]
    rfl
  have sorted : Ascending (((s.processes i).followerReceives (.newView m)).installed ++
      viewsIn rest) := stream ▸ h.stream k reading
  have process : ∀ j, Function.update s.processes i
      ((s.processes i).followerReceives (.newView m)) j =
        if j = i then (s.processes i).followerReceives (.newView m) else s.processes j :=
    fun j => Function.update_apply _ _ _ _
  have inbox : ∀ k', Function.update s.inbox k rest k' = if k' = k then rest else s.inbox k' :=
    fun k' => Function.update_apply _ _ _ _
  refine ⟨fun j v mem => ?_, fun j => ?_, fun k' v mem => ?_, fun k' tunes => ?_⟩
  · change v ∈ (Function.update s.processes i _ j).installed at mem
    rw [process] at mem
    split at mem
    · rw [installs] at mem
      rcases List.mem_append.mp mem with old | new
      · exact h.installed i v old
      · rw [List.mem_singleton.mp new]
        exact made
    · exact h.installed j v mem
  · change Ascending (Function.update s.processes i _ j).installed
    rw [process]
    split
    · exact (List.pairwise_append.mp sorted).1
    · exact h.sorted j
  · change v ∈ viewsIn (Function.update s.inbox k rest k') at mem
    have before : v ∈ viewsIn (s.inbox k') := by
      rw [inbox] at mem
      split at mem
      · rename_i same
        rw [same, views]
        exact List.mem_cons_of_mem _ mem
      · exact mem
    obtain ⟨made', member'⟩ := h.announced k' v before
    refine ⟨made', ?_⟩
    change (Function.update s.processes i _ (s.owner k')).me ∈ v.members
    rw [process]
    split
    · rename_i here
      rw [here] at member'
      exact member'
    · exact member'
  · change (Function.update s.processes i _ (s.owner k')).Tunes k' ∨
      (Function.update s.processes i _ (s.owner k')).main = _ ∧ _ at tunes
    change Ascending ((Function.update s.processes i _ (s.owner k')).installed ++
      viewsIn (Function.update s.inbox k rest k'))
    rw [process] at tunes ⊢
    rw [inbox]
    by_cases here : s.owner k' = i
    · rw [if_pos here] at tunes ⊢
      have main : ((s.processes i).followerReceives (.newView m)).main = .startAsFollower := place
      have same : k' = k := by
        rcases tunes with (⟨_, found'⟩ | greets) | ⟨waits, _⟩
        · exact Option.some.inj (found'.symm.trans found)
        · rw [main] at greets
          cases greets
        · rw [main] at waits
          cases waits
      rw [if_pos same]
      exact sorted
    · have other : k' ≠ k := by
        rintro rfl
        exact here own
      rw [if_neg here] at tunes ⊢
      rw [if_neg other]
      exact h.stream k' tunes

end Streams

/-! ## Every step -/

section

variable {s s' : World} {i : ProcId}

theorem Numbered.toNat_le (h : Numbered s) {v : View} (mem : v ∈ s.known) :
    v.viewId.toNat ≤ s.views.length := by
  obtain ⟨creation, made, rfl⟩ := List.mem_map.mp mem
  obtain ⟨n, less, at_n⟩ := List.mem_iff_getElem.mp made
  rw [h.numbers n creation (by rw [List.getElem?_eq_getElem less, at_n])]
  exact less

/-- What a leader sends is the view made last. -/
theorem Numbered.sends_newest (h : Numbered s) (streams : Streams s) {t : Thread} {m : NewViewMsg}
    {rest : List PeerId} (place : (s.processes i).operation t = some (.deliver m rest)) :
    m.view ∈ s.known ∧ (∀ v ∈ s.known, v.viewId ≤ m.view.viewId) ∧
      ∀ p ∈ rest, p ∈ m.view.members := by
  obtain ⟨rfl, _, alive, upToDate⟩ := (h.regular i).steady.tells t _ place
  rw [View.view_newViewMsg]
  refine ⟨streams.installed i _ (List.mem_of_getLast? upToDate), fun v mem => ?_, fun p mem => ?_⟩
  · have newest := h.newest i (h.heading_of_operation place)
    have least := h.toNat_le mem
    rw [← newest] at least
    exact least
  · exact OrderedSet.mem_insert.mpr (Or.inr (alive p mem))

/-- Whoever makes a view leads after it. -/
theorem ThreadStep.heading_of_made {pr next : Process} {t : Thread} {created : List Creation}
    (step : ThreadStep pr t (.silent created) next) (regular : pr.Regular)
    (some : created ≠ []) : ∃ creation, created = [creation] ∧
      creation.view.viewId = next.service.viewId ∧ next.main.heading = true := by
  cases step with
  | dies fatal => exact absurd fatal some
  | newView place =>
      refine ⟨_, rfl, ?_, regular.heading_setOperation (pr.endOperation _) place rfl⟩
      rw [service_setOperation]
      rfl
  | startAsLeader place free => exact ⟨_, rfl, rfl, rfl⟩
  | nothingPending place nothing => exact ⟨_, rfl, rfl, rfl⟩
  | _ => exact absurd rfl some

/-- **What is on the way** is kept in every step that keeps the numbers of the views. -/
theorem Streams.step {hosts : List PeerId} {e : Event} (h : Streams s) (numbered : Numbered s)
    (wired : Wired s) (taken : s.step hosts e = some s') (numbered' : Numbered s') :
    Streams s' := by
  -- nothing changes on the way
  have quiet {i : ProcId} {t : Thread} {next : Process} (label : Label)
      (step : ThreadStep (s.processes i) t label next)
      (installed : next.installed = (s.processes i).installed)
      (connected : ∀ p k, label ≠ .connected p k)
      (accepted : ∀ close k p, label ≠ .accepted close k p) : Streams (s.setProcess i next) :=
    h.thread wired (numbered.regular i) step installed
      (fun p k same => absurd same (connected p k))
      (fun close k p same => absurd same (accepted close k p)) rfl rfl (fun _ _ => rfl)
      (fun _ _ mem _ => mem) fun _ => .refl _
  cases worldStep_of_step taken with
  | @start p listed down =>
      have kept : ∀ j < s.started, Function.update s.processes s.started
          { me := p, main := .findLeader hosts } j = s.processes j :=
        fun j less => Function.update_of_ne (Nat.ne_of_lt less) _ _
      refine h.frame wired rfl (fun j => ?_) (fun j less => ?_) (fun _ _ => rfl)
        (fun _ => .refl _) fun k less tunes => ?_
      · change (Function.update s.processes s.started _ j).installed = _ ∨
          (Function.update s.processes s.started _ j).installed = _
        rw [Function.update_apply]
        split
        · exact Or.inr rfl
        · exact Or.inl rfl
      · change (Function.update s.processes s.started _ j).me = _ ∧
          (Function.update s.processes s.started _ j).installed = _
        rw [kept j less]
        exact ⟨rfl, rfl⟩
      · change (Function.update s.processes s.started _ (s.owner k)).Tunes k ∨
          (Function.update s.processes s.started _ (s.owner k)).main = _ ∧ _ at tunes
        rw [kept _ (wired.owners k less)] at tunes
        exact tunes
  | @crash i running =>
      exact quiet (t := .main) (.silent []) (.dies rfl) rfl nofun nofun
  | @heartBeat i p running idle other =>
      refine h.replace wired ?_ ?_ rfl rfl (fun _ _ => rfl) (fun _ _ mem _ => mem)
        (fun _ => .refl _) (fun k _ => Or.inl) Or.inl
      · rfl
      · rfl
  | @tick i order running idle all =>
      obtain ⟨leaderCrashed, detector, heartBeats, suspect, same⟩ := (s.processes i).tick_eq order
      refine h.replace wired ?_ ?_ rfl rfl (fun _ _ => rfl) (fun _ _ mem _ => mem)
        (fun _ => .refl _) (fun k _ => ?_) ?_
      · rw [same]
      · rw [same]
      · rw [same]
        exact Or.inl
      · rw [same]
        exact Or.inl
  | @silent i t created next running step =>
      have installed := step.installed_eq nofun
      cases created with
      | nil =>
          have same := quiet _ step (installed.trans (List.append_nil _)) nofun nofun
          rw [List.append_nil]
          exact same
      | cons creation created =>
          obtain ⟨_, only, number, heading⟩ :=
            step.heading_of_made (numbered.regular i) (List.cons_ne_nil _ _)
          cases only
          refine h.makes rfl rfl rfl rfl rfl step.me_eq installed (fun v mem => ?_) heading
          have counted : next.service.viewId.toNat = s.views.length + 1 := by
            have newest := numbered'.newest i
            change (Function.update s.processes i next i).main.heading = true →
              (Function.update s.processes i next i).service.viewId.toNat =
                (s.views ++ [creation]).length at newest
            rw [Function.update_self, List.length_append] at newest
            exact newest heading
          rw [number]
          change v.viewId.toNat ≤ next.service.viewId.toNat
          rw [counted]
          exact Nat.le_succ_of_le (numbered.toNat_le mem)
  | @sent i t k m next running step =>
      have before := quiet _ step ((step.installed_eq nofun).trans (List.append_nil _)) nofun nofun
      cases m with
      | newView m =>
          obtain ⟨p, rest, place, found, _⟩ := step.sends_view
          obtain ⟨made, newest, members⟩ := numbered.sends_newest h place
          refine before.deliver made newest ?_
          obtain ⟨less, own, peer⟩ := wired.held i p k (Or.inl found)
          change (Function.update s.processes i next (s.owner k.peer)).me ∈ _
          rw [Function.update_of_ne, peer]
          · exact members p List.mem_cons_self
          · rw [← own]
            exact wired.owner_peer_ne less
      | request m => exact before.deliver_other nofun
      | ok m => exact before.deliver_other nofun
      | newLeader m => exact before.deliver_other nofun
  | failed running ended step =>
      exact quiet _ step ((step.installed_eq nofun).trans (List.append_nil _)) nofun nofun
  | @received i t k m rest next running head step =>
      have less : ∀ k', (viewsIn (Function.update s.inbox k rest k')).Sublist
          (viewsIn (s.inbox k')) := by
        intro k'
        rw [Function.update_apply]
        split
        · rename_i same
          rw [same, head]
          exact (List.sublist_cons_self m rest).filterMap _
        · exact .refl _
      have popped (installed : next.installed = (s.processes i).installed) :
          Streams ({ s with inbox := Function.update s.inbox k rest }.setProcess i next) :=
        h.thread wired (numbered.regular i) step installed nofun nofun rfl rfl (fun _ _ => rfl)
          (fun _ _ mem _ => mem) less
      by_cases view : ∃ m', m = .newView m'
      · obtain ⟨m, rfl⟩ := view
        rcases step.reads_view with dies | ⟨place, found, rfl⟩
        · exact popped (by rw [dies]; rfl)
        · exact h.reads place found (wired.held i _ k (Or.inl found)).2.1 head
      · refine popped ((step.installed_eq fun k' m' same => ?_).trans (List.append_nil _))
        cases same
        exact view ⟨_, rfl⟩
  | lost running empty ended step =>
      exact quiet _ step ((step.installed_eq nofun).trans (List.append_nil _)) nofun nofun
  | @connected i t peer j next running known listens step =>
      refine h.thread wired (numbered.regular i) step
        ((step.installed_eq nofun).trans (List.append_nil _)) (fun p k same => ?_) nofun rfl rfl
        (fun k less => Wired.owner_openConnection less) (fun l k mem less => ?_) fun k => ?_
      · cases same
        exact Nat.le_refl _
      · change k ∈ Function.update s.backlog j (s.backlog j ++ [s.nextSocket.peer]) l at mem
        rw [Function.update_apply] at mem
        split at mem
        · rename_i here
          rw [here]
          rcases List.mem_append.mp mem with old | new
          · exact old
          · exact absurd (List.mem_singleton.mp new) (Wired.next_ne less).2
        · exact mem
      · change (viewsIn (Function.update (Function.update s.inbox s.nextSocket [])
          s.nextSocket.peer [] k)).Sublist _
        rw [Function.update_apply]
        split
        · exact List.nil_sublist _
        · rw [Function.update_apply]
          split
          · exact List.nil_sublist _
          · exact .refl _
  | refused running deaf step =>
      exact quiet _ step ((step.installed_eq nofun).trans (List.append_nil _)) nofun nofun
  | @accepted i t close k rest next running head step =>
      refine h.thread wired (numbered.regular i) step
        ((step.installed_eq nofun).trans (List.append_nil _)) nofun (fun close k p same => ?_) rfl
        rfl (fun _ _ => rfl) (fun l k' mem _ => ?_) fun _ => .refl _
      · cases same
        rw [head]
        exact List.mem_cons_self
      · change k' ∈ Function.update s.backlog i (if close then [] else rest) l at mem
        rw [Function.update_apply] at mem
        split at mem
        · rename_i here
          rw [here, head]
          split at mem
          · cases mem
          · exact List.mem_cons_of_mem _ mem
        · exact mem

theorem views_length_le {hosts : List PeerId} {e : Event} (taken : s.step hosts e = some s') :
    s.views.length ≤ s'.views.length := by
  cases worldStep_of_step taken with
  | silent running step =>
      rw [List.length_append]
      exact Nat.le_add_right _ _
  | _ => exact Nat.le_refl _

theorem numbered_init : Numbered {} where
  regular _ := ⟨.of_idle rfl rfl, fun busy => absurd rfl busy, nofun⟩
  sole _ _ governs := nomatch governs
  numbers _ _ made := nomatch made
  first _ place := nomatch place
  newest _ heading := nomatch heading

theorem streams_init : Streams {} where
  installed _ _ mem := nomatch mem
  sorted _ := List.Pairwise.nil
  announced _ _ mem := nomatch mem
  stream _ _ := List.Pairwise.nil

theorem numbered_of_reachable {hosts : List PeerId}
    (reach : Reach (World.step hosts) (fun s e => Orderly s e ∧ CountsOn s e) {} s)
    (short : s.views.length < UInt32.size) : Numbered s ∧ Streams s := by
  have back : ∀ (s : World) e s', World.step hosts s e = some s' →
      s'.views.length < UInt32.size → s.views.length < UInt32.size :=
    fun s e s' taken => Nat.lt_of_le_of_lt (views_length_le taken)
  refine reach.invariant_below (P := fun s => Numbered s ∧ Streams s)
    (fun s before => wired_of_reachable before.always) back ⟨numbered_init, streams_init⟩ ?_ short
  rintro s e s' wired ⟨numbered, streams⟩ short ⟨orderly, newest⟩ taken
  have after := numbered.step wired taken orderly newest short
  exact ⟨after, streams.step numbered wired taken after⟩

theorem Numbered.eq_of_viewId (h : Numbered s) {v v' : View} (mem : v ∈ s.known)
    (mem' : v' ∈ s.known) (same : v.viewId = v'.viewId) : v = v' := by
  obtain ⟨creation, made, rfl⟩ := List.mem_map.mp mem
  obtain ⟨creation', made', rfl⟩ := List.mem_map.mp mem'
  obtain ⟨n, at_n⟩ := List.mem_iff_getElem?.mp made
  obtain ⟨n', at_n'⟩ := List.mem_iff_getElem?.mp made'
  have number := h.numbers n creation at_n
  have number' := h.numbers n' creation' at_n'
  have index : n = n' := by
    rw [same, number'] at number
    omega
  subst index
  rw [at_n] at at_n'
  rw [Option.some.inj at_n']

/-- **View identifiers.**  In the runs in which one group is founded and whoever takes over has
received the view made last and has found a request to complete, a view identifier names one
view. -/
theorem view_ids_of_countsOn {hosts : List PeerId} {s : World}
    (reach : Reach (World.step hosts) (fun s e => Orderly s e ∧ CountsOn s e) {} s)
    (short : s.views.length < UInt32.size) : NamesOneView s := by
  obtain ⟨numbered, streams⟩ := numbered_of_reachable reach short
  refine ⟨fun i => ?_, fun i j v mem v' mem' same => ?_⟩
  · have sorted := List.Pairwise.isChain ((streams.sorted i).imp_of_mem
      (S := fun v v' => v.members ≠ v'.members → v.viewId < v'.viewId) ?_)
    · exact sorted
    · intro v v' mem mem' least changed
      apply lt_of_le_of_ne least
      intro same
      apply changed
      rw [numbered.eq_of_viewId (streams.installed i v mem) (streams.installed i v' mem') same]
  · rw [numbered.eq_of_viewId (streams.installed i v mem) (streams.installed j v' mem') same]

end

/-- Host 2 takes over where host 4 is to be added, and adds it. -/
theorem view_ids_of_pendingAddition : NamesOneView pendingAdditionState :=
  view_ids_of_countsOn (.of_isSome (by decide +kernel) pendingAdditionRun_through)
    (by decide +kernel)

/-! ## Host 1 leads hosts 2 and 3, crashes while it is idle, and host 2 takes over -/

def idleTakeoverRun : List Event :=
  threeHostsRun ++ [.crash 0] ++ mainSteps 1 1 ++ mainSteps 2 1 ++ detectRun 1 3 ++
  detectRun 2 2 ++ mainSteps 2 2 ++ mainSteps 1 4 ++ mainSteps 2 3 ++ mainSteps 1 3

theorem idleTakeoverRun_through :
    (replay (World.step [1, 2, 3, 4, 5]) {} idleTakeoverRun).isSome = true := by
  decide +kernel

/-- Two views have the identifier 3: hosts 1, 2 and 3, and hosts 2 and 3. -/
theorem view_id_reused : ¬ ∀ (hosts : List PeerId) (s : World),
    Reach (World.step hosts) Orderly {} s → NamesOneView s := by
  intro always
  have named := always [1, 2, 3, 4, 5] _ (.of_isSome (by decide +kernel) idleTakeoverRun_through)
  have same := named.one 0 1 ⟨3, OrderedSet.ofList [1, 2, 3]⟩ (by decide +kernel)
    ⟨3, OrderedSet.ofList [2, 3]⟩ (by decide +kernel) rfl
  revert same
  decide

end GroupComm.Lab2
