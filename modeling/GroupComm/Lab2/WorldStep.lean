import GroupComm.Lab2.System
import GroupComm.Lab2.ThreadStep

/-!
# What a step of the system can do

`WorldStep hosts s e s'` lists how an event changes the world, with the step of the thread
that takes part in it (`worldStep_of_step`).  Every event changes one process.
-/

namespace GroupComm.Lab2

open World

inductive WorldStep (hosts : List PeerId) (s : World) : Event → World → Prop
  | start {p} (listed : p ∈ hosts) (down : s.isUp p = false) :
    WorldStep hosts s (.start p)
      { s.setProcess s.started { me := p, main := .findLeader hosts } with
        started := s.started + 1 }
  | crash {i} (running : (s.processes i).running = true) :
    WorldStep hosts s (.crash i) (s.setProcess i (s.processes i).terminate)
  | heartBeat {i p} (running : (s.processes i).running = true)
      (idle : (s.processes i).detector = none) (other : p ≠ (s.processes i).me) :
    WorldStep hosts s (.heartBeat i p) (s.setProcess i ((s.processes i).heartBeat p))
  | tick {i order} (running : (s.processes i).running = true)
      (idle : (s.processes i).detector = none)
      (all : order.Perm (s.processes i).heartBeats.peers.toList) :
    WorldStep hosts s (.tick i order) (s.setProcess i ((s.processes i).tick order))
  | silent {i t created next} (running : (s.processes i).running = true)
      (step : ThreadStep (s.processes i) t (.silent created) next) :
    WorldStep hosts s (.run i t) { s.setProcess i next with views := s.views ++ created }
  | sent {i t client m next} (running : (s.processes i).running = true)
      (step : ThreadStep (s.processes i) t (.sent client m) next) :
    WorldStep hosts s (.run i t) ((s.deliver client.peer m).setProcess i next)
  | failed {i t client m next} (running : (s.processes i).running = true)
      (ended : s.ended client.peer = true)
      (step : ThreadStep (s.processes i) t (.failed client m) next) :
    WorldStep hosts s (.fail i t) (s.setProcess i next)
  | received {i t client m rest next} (running : (s.processes i).running = true)
      (head : s.inbox client = m :: rest)
      (step : ThreadStep (s.processes i) t (.received client m) next)
      (reads : ∃ received lost, (s.processes i).effect t = .receive client received lost) :
    WorldStep hosts s (.run i t)
      ({ s with inbox := Function.update s.inbox client rest }.setProcess i next)
  | lost {i t client next} (running : (s.processes i).running = true)
      (empty : s.inbox client = []) (ended : s.ended client.peer = true)
      (step : ThreadStep (s.processes i) t (.lost client) next) :
    WorldStep hosts s (.run i t) (s.setProcess i next)
  | connected {i t peer j next} (running : (s.processes i).running = true)
      (known : j < s.started)
      (listens : (s.processes j).me = peer ∧ (s.processes j).main.listening = true)
      (step : ThreadStep (s.processes i) t (.connected peer s.nextSocket) next) :
    WorldStep hosts s (.run i t) ((s.openConnection i j).setProcess i next)
  | refused {i t peer next} (running : (s.processes i).running = true)
      (deaf : s.listener peer = none)
      (step : ThreadStep (s.processes i) t (.refused peer) next) :
    WorldStep hosts s (.run i t) (s.setProcess i next)
  | accepted {i t close client rest next} (running : (s.processes i).running = true)
      (head : s.backlog i = client :: rest)
      (step : ThreadStep (s.processes i) t
        (.accepted close client (s.processes (s.owner client.peer)).me) next) :
    WorldStep hosts s (.run i t) ((s.acceptConnection i close rest).setProcess i next)

theorem listener_eq_some {s : World} {p : PeerId} {j : ProcId} (found : s.listener p = some j) :
    j < s.started ∧ (s.processes j).me = p ∧ (s.processes j).main.listening = true := by
  have known := List.mem_of_find?_eq_some found
  have listens := List.find?_some found
  rw [List.mem_range] at known
  rw [World.listens, Bool.and_eq_true, decide_eq_true_iff] at listens
  exact ⟨known, listens⟩

theorem listener_isSome {s : World} {p : PeerId} {j : ProcId} (known : j < s.started)
    (listens : (s.processes j).me = p ∧ (s.processes j).main.listening = true) :
    (s.listener p).isSome = true := by
  unfold listener
  rw [List.find?_isSome]
  refine ⟨j, List.mem_range.mpr known, ?_⟩
  rw [World.listens, Bool.and_eq_true, decide_eq_true_iff]
  exact listens

/-- An effect that the network meets. -/
theorem worldStep_of_perform {hosts : List PeerId} {s s' : World} {i : ProcId} {t : Thread}
    (running : (s.processes i).running = true)
    (performed : s.perform i ((s.processes i).effect t) = some s') :
    WorldStep hosts s (.run i t) s' := by
  unfold perform at performed
  split at performed
  · rename_i eff
    cases performed
    exact .silent running (Process.threadStep_of_gives (eff ▸ .silent))
  · rename_i eff
    cases performed
    exact .sent running (Process.threadStep_of_gives (eff ▸ .sent))
  · rename_i eff
    split at performed
    · rename_i head
      cases performed
      exact .received running head (Process.threadStep_of_gives (eff ▸ .received)) ⟨_, _, eff⟩
    · rename_i empty
      split at performed
      · rename_i ended
        cases performed
        exact .lost running empty ended (Process.threadStep_of_gives (eff ▸ .lost))
      · cases performed
  · rename_i eff
    split at performed
    · rename_i found
      obtain ⟨known, listens⟩ := listener_eq_some found
      cases performed
      exact .connected running known listens (Process.threadStep_of_gives (eff ▸ .connected))
    · rename_i deaf
      cases performed
      exact .refused running deaf (Process.threadStep_of_gives (eff ▸ .refused))
  · rename_i eff
    split at performed
    · rename_i head
      cases performed
      exact .accepted running head (Process.threadStep_of_gives (eff ▸ .accepted))
    · cases performed
  · cases performed

theorem worldStep_of_step {hosts : List PeerId} {s s' : World} {e : Event}
    (taken : s.step hosts e = some s') : WorldStep hosts s e s' := by
  cases e with
  | start p =>
      rw [step] at taken
      split at taken
      · rename_i guard
        cases taken
        exact .start guard.1 guard.2
      · cases taken
  | crash i =>
      rw [step] at taken
      split at taken
      · rename_i running
        cases taken
        exact .crash running
      · cases taken
  | heartBeat i p =>
      rw [step] at taken
      split at taken
      · rename_i guard
        obtain ⟨detecting, _, other⟩ := guard
        rw [World.detecting, Bool.and_eq_true, decide_eq_true_iff] at detecting
        cases taken
        exact .heartBeat detecting.1 detecting.2 other
      · cases taken
  | tick i order =>
      rw [step] at taken
      split at taken
      · rename_i guard
        obtain ⟨detecting, all⟩ := guard
        rw [World.detecting, Bool.and_eq_true, decide_eq_true_iff] at detecting
        cases taken
        exact .tick detecting.1 detecting.2 all
      · cases taken
  | run i t =>
      rw [step] at taken
      split at taken
      · rename_i running
        exact worldStep_of_perform running taken
      · cases taken
  | fail i t =>
      rw [step] at taken
      split at taken
      · rename_i running
        unfold performFailure at taken
        split at taken
        · rename_i client m sent failed eff
          split at taken
          · rename_i ended
            cases taken
            have gives : ((s.processes i).effect t).Gives (.failed client m) failed := by
              rw [eff]
              exact .failed
            exact .failed running ended (Process.threadStep_of_gives gives)
          · cases taken
        · cases taken
      · cases taken

/-! ## The process that takes the step -/

/-- One process has changed, and what is on the way. -/
structure World.Replaces (s s' : World) (i : ProcId) (next : Process) : Prop where
  processes : s'.processes = Function.update s.processes i next
  owner : s'.owner = s.owner
  backlog : s'.backlog = s.backlog
  opened : s'.opened = s.opened

/-- What a step does to the process that takes it. -/
inductive ProcessStep (hosts : List PeerId) (s : World) : Event → ProcId → Process → Prop
  | start {p} : ProcessStep hosts s (.start p) s.started { me := p, main := .findLeader hosts }
  | crash {i} (running : (s.processes i).running = true) :
    ProcessStep hosts s (.crash i) i (s.processes i).terminate
  | heartBeat {i p} (running : (s.processes i).running = true)
      (idle : (s.processes i).detector = none) (other : p ≠ (s.processes i).me) :
    ProcessStep hosts s (.heartBeat i p) i ((s.processes i).heartBeat p)
  | tick {i order} (running : (s.processes i).running = true)
      (idle : (s.processes i).detector = none) :
    ProcessStep hosts s (.tick i order) i ((s.processes i).tick order)
  | thread {e i t label next} (event : e = .run i t ∨ e = .fail i t ∧ ∃ k m, label = .failed k m)
      (running : (s.processes i).running = true)
      (step : ThreadStep (s.processes i) t label next)
      (connected : ∀ peer client, label = .connected peer client → ∃ j < s.started,
        (s.processes j).me = peer ∧ (s.processes j).main.listening = true)
      (accepted : ∀ close client peer, label = .accepted close client peer →
        client ∈ s.backlog i ∧ peer = (s.processes (s.owner client.peer)).me) :
    ProcessStep hosts s e i next

/-- **One process takes the step.** -/
theorem WorldStep.processStep {hosts : List PeerId} {s s' : World} {e : Event}
    (h : WorldStep hosts s e s') :
    ∃ i next, ProcessStep hosts s e i next ∧
      s'.processes = Function.update s.processes i next := by
  cases h with
  | start listed down => exact ⟨_, _, .start, rfl⟩
  | crash running => exact ⟨_, _, .crash running, rfl⟩
  | heartBeat running idle other => exact ⟨_, _, .heartBeat running idle other, rfl⟩
  | tick running idle all => exact ⟨_, _, .tick running idle, rfl⟩
  | silent running step =>
      exact ⟨_, _, .thread (Or.inl rfl) running step (fun _ _ same => nomatch same)
        (fun _ _ _ same => nomatch same), rfl⟩
  | sent running step =>
      exact ⟨_, _, .thread (Or.inl rfl) running step (fun _ _ same => nomatch same)
        (fun _ _ _ same => nomatch same), rfl⟩
  | failed running ended step =>
      exact ⟨_, _, .thread (Or.inr ⟨rfl, _, _, rfl⟩) running step (fun _ _ same => nomatch same)
        (fun _ _ _ same => nomatch same), rfl⟩
  | received running head step =>
      exact ⟨_, _, .thread (Or.inl rfl) running step (fun _ _ same => nomatch same)
        (fun _ _ _ same => nomatch same), rfl⟩
  | lost running empty ended step =>
      exact ⟨_, _, .thread (Or.inl rfl) running step (fun _ _ same => nomatch same)
        (fun _ _ _ same => nomatch same), rfl⟩
  | @connected i t peer j next running known listens step =>
      refine ⟨_, _, .thread (Or.inl rfl) running step ?_ (fun _ _ _ same => nomatch same), rfl⟩
      intro _ _ same
      cases same
      exact ⟨j, known, listens⟩
  | refused running deaf step =>
      exact ⟨_, _, .thread (Or.inl rfl) running step (fun _ _ same => nomatch same)
        (fun _ _ _ same => nomatch same), rfl⟩
  | accepted running head step =>
      refine ⟨_, _, .thread (Or.inl rfl) running step (fun _ _ same => nomatch same) ?_, rfl⟩
      intro _ _ _ same
      cases same
      exact ⟨by rw [head]; exact List.mem_cons_self, rfl⟩

/-- What holds of a process when it starts and is kept by its steps holds of all processes. -/
theorem WorldStep.forall_processes {hosts : List PeerId} {P : Process → Prop} {s s' : World}
    {e : Event} (h : WorldStep hosts s e s') (before : ∀ i, P (s.processes i))
    (kept : ∀ i next, ProcessStep hosts s e i next → P next) : ∀ i, P (s'.processes i) := by
  obtain ⟨i, next, step, same⟩ := h.processStep
  intro j
  rw [same, Function.update_apply]
  split
  · exact kept i next step
  · exact before j

end GroupComm.Lab2
