import GroupComm.Lab2.Views

/-!
# Whom a view admits

A view lists hosts, and a host that is started again is another process.  The processes that a view
admits are the one that gives the view to a process and those it is connected to at that moment.

* `World.memberProcess` is the process that a host stands for in a group.
* `Given` says when and by whom a view was given to a process that has installed it.
* `exists_given`: every view that a process has installed was given to it.
-/

namespace GroupComm.Lab2

open MembershipService World Transition Process

/-- The process that host `p` stands for in the group of process `l`: `l` itself, or the one at the
other end of the connection to `p`. -/
def World.memberProcess (s : World) (l : ProcId) (p : PeerId) : Option ProcId :=
  if p = (s.processes l).me then some l
  else ((s.processes l).service.tcpClientMap p).map fun client => s.owner client.peer

/-- The view that process `i` installs from a message. -/
def World.viewAt (s : World) (i : ProcId) (m : NewViewMsg) : View :=
  ⟨m.newViewId,
    ((OrderedSet.ofList m.members).erase (s.processes i).me).insert (s.processes i).me⟩

/-- Process `l` gives a view to a process: it is about to send the message, or to make a view, which
it installs itself. -/
inductive World.Gives (s : World) (l : ProcId) : ProcId → View → Prop
  | sends {t m peerId rest client}
      (place : (s.processes l).operation t = some (.deliver m (peerId :: rest)))
      (found : (s.processes l).service.tcpClientMap peerId = some client) :
    Gives s l (s.owner client.peer) (s.viewAt (s.owner client.peer) m)
  | makes {t created next creation} (step : ThreadStep (s.processes l) t (.silent created) next)
      (mem : creation ∈ created) : Gives s l l creation.view

/-- In the earlier state `s₀`, process `l` gave view `v` to process `i`. -/
structure Given (hosts : List PeerId) (s₀ s : World) (l i : ProcId) (v : View) : Prop where
  reach : Reach (World.step hosts) Always {} s₀
  running : (s₀.processes l).running = true
  gives : s₀.Gives l i v
  run : Reach (World.step hosts) Always s₀ s

theorem Given.later {hosts : List PeerId} {s₀ s s' : World} {l i : ProcId} {v : View} {e : Event}
    (h : Given hosts s₀ s l i v) (taken : s.step hosts e = some s') : Given hosts s₀ s' l i v :=
  ⟨h.reach, h.running, h.gives, h.run.next trivial taken⟩

/-! ## Hosts of processes -/

/-- A process stays on its host. -/
theorem WorldStep.me_eq {hosts : List PeerId} {s s' : World} {e : Event}
    (h : WorldStep hosts s e s') {j : ProcId} (known : j < s.started) :
    (s'.processes j).me = (s.processes j).me := by
  obtain ⟨i, next, step, same⟩ := h.processStep
  rw [same, Function.update_apply]
  split
  · rename_i here
    subst here
    cases step with
    | start => exact absurd known (Nat.lt_irrefl _)
    | crash _ => rfl
    | heartBeat _ _ _ => rfl
    | tick _ _ =>
        obtain ⟨_, _, _, _, ticked⟩ := (s.processes j).tick_eq _
        rw [ticked]
    | thread _ _ step _ _ => exact step.me_eq
  · rfl

theorem WorldStep.started_le {hosts : List PeerId} {s s' : World} {e : Event}
    (h : WorldStep hosts s e s') : s.started ≤ s'.started := by
  cases h with
  | start _ _ => exact Nat.le_succ _
  | _ => exact Nat.le_refl _

theorem me_of_run {hosts : List PeerId} {s s' : World}
    (run : Reach (World.step hosts) Always s s') {j : ProcId} (known : j < s.started) :
    j < s'.started ∧ (s'.processes j).me = (s.processes j).me := by
  refine run.invariant (P := fun s' => j < s'.started ∧ (s'.processes j).me = (s.processes j).me)
    ⟨known, rfl⟩ ?_
  rintro s₁ e s₂ ⟨less, same⟩ _ taken
  have step := worldStep_of_step taken
  exact ⟨Nat.lt_of_lt_of_le less step.started_le, (step.me_eq less).trans same⟩

/-- A host stands for a process on this host. -/
theorem Given.me_memberProcess {hosts : List PeerId} {s₀ s : World} {l i j : ProcId} {v : View}
    (h : Given hosts s₀ s l i v) {p : PeerId} (member : s₀.memberProcess l p = some j) :
    j < s.started ∧ (s.processes j).me = p := by
  have wired := wired_of_reachable h.reach
  have here : j < s₀.started ∧ (s₀.processes j).me = p := by
    unfold memberProcess at member
    split at member
    · rename_i own
      cases member
      exact ⟨wired.started l h.running, own.symm⟩
    · obtain ⟨client, found, rfl⟩ := Option.map_eq_some_iff.mp member
      obtain ⟨less, _, me⟩ := wired.held l p client (Or.inl found)
      exact ⟨wired.owners client.peer less, me⟩
  obtain ⟨known, me⟩ := me_of_run h.run here.1
  exact ⟨known, me.trans here.2⟩

/-! ## Where views come from -/

/-- A view on its way was on its way before, or is sent in this step. -/
theorem WorldStep.newView_cases {hosts : List PeerId} {s s' : World} {e : Event}
    (h : WorldStep hosts s e s') {k : Socket} {m : NewViewMsg} (mem : .newView m ∈ s'.inbox k) :
    (.newView m ∈ s.inbox k ∧ s'.owner k = s.owner k) ∨
      s'.owner k = s.owner k ∧ ∃ l t p rest, (s.processes l).running = true ∧
        (s.processes l).operation t = some (.deliver m (p :: rest)) ∧
          (s.processes l).service.tcpClientMap p = some k.peer := by
  cases h with
  | @sent i t client m' next running step =>
      change .newView m ∈ Function.update s.inbox client.peer (s.inbox client.peer ++ [m']) k at mem
      rw [Function.update_apply] at mem
      split at mem
      · rename_i same
        rcases List.mem_append.mp mem with old | new
        · exact Or.inl ⟨same ▸ old, rfl⟩
        · cases List.mem_singleton.mp new
          obtain ⟨p, rest, place, found, _⟩ := step.sends_view
          refine Or.inr ⟨rfl, i, t, p, rest, running, place, ?_⟩
          rw [found, same, Socket.peer_peer]
      · exact Or.inl ⟨mem, rfl⟩
  | @received i t client m' rest next running head step =>
      change .newView m ∈ Function.update s.inbox client rest k at mem
      rw [Function.update_apply] at mem
      split at mem
      · rename_i same
        subst same
        exact Or.inl ⟨head ▸ List.mem_cons_of_mem _ mem, rfl⟩
      · exact Or.inl ⟨mem, rfl⟩
  | @connected i t peer j next running known listens step =>
      change .newView m ∈ Function.update (Function.update s.inbox s.nextSocket [])
        s.nextSocket.peer [] k at mem
      rw [Function.update_apply, Function.update_apply] at mem
      split at mem
      · cases mem
      · rename_i notPeer
        split at mem
        · cases mem
        · rename_i notNext
          refine Or.inl ⟨mem, ?_⟩
          change Function.update (Function.update s.owner _ _) _ _ k = _
          rw [Function.update_of_ne notPeer, Function.update_of_ne notNext]
  | _ => exact Or.inl ⟨mem, rfl⟩

/-- The views of the processes and those on their way were given. -/
structure Sourced (hosts : List PeerId) (s : World) : Prop where
  installed : ∀ i, ∀ v ∈ (s.processes i).installed, ∃ s₀ l, Given hosts s₀ s l i v
  announced : ∀ k m, .newView m ∈ s.inbox k →
    ∃ s₀ l, Given hosts s₀ s l (s.owner k) (s.viewAt (s.owner k) m)

namespace Sourced

variable {hosts : List PeerId} {s s' : World} {e : Event}

/-- What a step of a process installs has been given to it, or is given in this step. -/
theorem installs (h : Sourced hosts s) (wired : Wired s)
    (reach : Reach (World.step hosts) Always {} s) (step : WorldStep hosts s e s') (j : ProcId) :
    ∀ v ∈ (s'.processes j).installed, ∃ s₀ l, Given hosts s₀ s l j v := by
  -- only process `i` changes
  have replaced {i : ProcId} {next : Process}
      (installed : ∀ v ∈ next.installed, ∃ s₀ l, Given hosts s₀ s l i v) :
      ∀ v ∈ (Function.update s.processes i next j).installed, ∃ s₀ l, Given hosts s₀ s l j v := by
    rw [Function.update_apply]
    split
    · rename_i here
      rw [here]
      exact installed
    · exact h.installed j
  have unread {i : ProcId} {t : Thread} {label : Label} {next : Process}
      (step : ThreadStep (s.processes i) t label next) (made : label.created = [])
      (notRead : ∀ k m, label ≠ .received k (.newView m)) :
      ∀ v ∈ next.installed, ∃ s₀ l, Given hosts s₀ s l i v := by
    rw [step.installed_eq notRead, made, List.map_nil, List.append_nil]
    exact h.installed i
  cases step with
  | start _ _ => exact replaced fun v mem => by cases mem
  | @crash i _ => exact replaced (h.installed i)
  | @heartBeat i _ _ _ _ => exact replaced (h.installed i)
  | @tick i order _ _ _ =>
      obtain ⟨_, _, _, _, ticked⟩ := (s.processes i).tick_eq order
      refine replaced ?_
      rw [ticked]
      exact h.installed i
  | @silent i t created next running step =>
      refine replaced fun v mem => ?_
      rw [step.installed_eq fun _ _ same => by cases same] at mem
      rcases List.mem_append.mp mem with old | new
      · exact h.installed i v old
      · obtain ⟨creation, made, rfl⟩ := List.mem_map.mp new
        exact ⟨s, i, reach, running, .makes step made, .start⟩
  | sent _ step => exact replaced (unread step rfl fun _ _ same => by cases same)
  | failed _ _ step => exact replaced (unread step rfl fun _ _ same => by cases same)
  | @received i t client m rest next _ head step =>
      refine replaced ?_
      by_cases view : ∃ m', m = .newView m'
      · obtain ⟨m', rfl⟩ := view
        rcases step.reads_view with rfl | ⟨_, found, rfl⟩
        · exact h.installed i
        · intro v mem
          rcases List.mem_append.mp mem with old | new
          · exact h.installed i v old
          · cases List.mem_singleton.mp new
            have own := (wired.held i _ client (Or.inl found)).2.1
            have sent := h.announced client m' (head ▸ List.mem_cons_self)
            rw [own] at sent
            exact sent
      · exact unread step rfl fun _ m' same => view ⟨m', by cases same; rfl⟩
  | lost _ _ _ step => exact replaced (unread step rfl fun _ _ same => by cases same)
  | connected _ _ _ step => exact replaced (unread step rfl fun _ _ same => by cases same)
  | refused _ _ step => exact replaced (unread step rfl fun _ _ same => by cases same)
  | accepted _ _ step => exact replaced (unread step rfl fun _ _ same => by cases same)

theorem step (h : Sourced hosts s) (reach : Reach (World.step hosts) Always {} s)
    (taken : s.step hosts e = some s') : Sourced hosts s' := by
  have wired := wired_of_reachable reach
  have step := worldStep_of_step taken
  have sameView {k : Socket} (less : k.connection < s.opened) (m : NewViewMsg) :
      s'.viewAt (s.owner k) m = s.viewAt (s.owner k) m := by
    unfold viewAt
    rw [step.me_eq (wired.owners k less)]
  refine ⟨fun j v mem => ?_, fun k m mem => ?_⟩
  · obtain ⟨s₀, l, given⟩ := h.installs wired reach step j v mem
    exact ⟨s₀, l, given.later taken⟩
  · rcases step.newView_cases mem with ⟨before, own⟩ | ⟨own, l, t, p, rest, running, place, found⟩
    · have less : k.connection < s.opened := by
        by_contra more
        rw [wired.unopened k (Nat.not_lt.mp more)] at before
        cases before
      obtain ⟨s₀, l, given⟩ := h.announced k m before
      rw [own, sameView less]
      exact ⟨s₀, l, given.later taken⟩
    · have less : k.connection < s.opened := (wired.held l p k.peer (Or.inl found)).1
      have gives := Gives.sends place found
      rw [Socket.peer_peer] at gives
      rw [own, sameView less]
      exact ⟨s, l, reach, running, gives, .next .start trivial taken⟩

end Sourced

/-- Every view that a process has installed was given to it. -/
theorem exists_given {hosts : List PeerId} {s : World}
    (reach : Reach (World.step hosts) Always {} s) {i : ProcId} {v : View}
    (mem : v ∈ (s.processes i).installed) : ∃ s₀ l, Given hosts s₀ s l i v := by
  have sourced : Sourced hosts s :=
    reach.invariant_with (Q := Reach (World.step hosts) Always {}) (P := Sourced hosts)
      (fun _ before => before)
      ⟨fun _ _ mem => (by cases mem), fun _ _ mem => (by cases mem)⟩
      fun _ _ _ before h _ taken => h.step before taken
  exact sourced.installed i v mem

end GroupComm.Lab2
