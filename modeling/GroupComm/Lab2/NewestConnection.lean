import GroupComm.Lab2.Connections
import GroupComm.Lab2.InStep

/-!
# The newest connection of a peer

`startAsLeader` puts a connection that it has accepted into `tcpClientMap` by `insert`, which
keeps the one that is there.  A peer that is deleted loses its connection; a peer that starts
again before its crash has been noticed has not been deleted.

* `Watched` is the world together with the connection that each process has accepted last from
  each peer, and the one that it had for that peer at the time.
* A process whose `startAsLeader` has accepted a connection goes on as a leader, so from then on
  only the deletion of a peer changes its map (`ThreadStep.serving`).
* So `sendRequestMsg`, `waitForOkMsg` and `sendNewViewMsg` use the newest connection of a peer
  where there was none when it was accepted, and else the old one (`newest_client_iff`).
* So they always do where only peers without a connection are accepted
  (`newest_client_of_unknown`).
-/

namespace GroupComm.Lab2

open World MembershipService Transition

/-- A connection accepted from a peer, and the one that the map had for it. -/
structure Accepted where
  client : Socket
  known : Option Socket
  deriving DecidableEq

structure Watched where
  world : World := {}
  /-- What `startAsLeader` of a process has accepted last from a peer that it has not deleted
  since. -/
  newest : ProcId → PeerId → Option Accepted := fun _ _ => none

namespace Watched

/-- An entry of the record is changed. -/
def record (s : Watched) (i : ProcId) (p : PeerId) (accepted : Option Accepted) :
    ProcId → PeerId → Option Accepted :=
  Function.update s.newest i (Function.update (s.newest i) p accepted)

/-- The record after an event. -/
def note (s : Watched) : Event → ProcId → PeerId → Option Accepted
  | .run i t =>
      let pr := s.world.processes i
      match pr.operation t with
      | some (.lock requestMsg) =>
          if requestMsg.operationType = .DEL then s.record i requestMsg.peerId none else s.newest
      | _ =>
          if t = .main ∧ pr.main = .accept then
            match s.world.backlog i with
            | client :: _ =>
                let newPeerId := (s.world.processes (s.world.owner client.peer)).me
                s.record i newPeerId (some ⟨client, pr.service.tcpClientMap newPeerId⟩)
            | [] => s.newest
          else s.newest
  | _ => s.newest

def step (hosts : List PeerId) (s : Watched) (e : Event) : Option Watched :=
  (s.world.step hosts e).map fun world => ⟨world, s.note e⟩

end Watched

/-- The connection that an effect uses. -/
def Effect.client : Effect → Option Socket
  | .send client _ _ _ => some client
  | .receive client _ _ => some client
  | _ => none

/-! ## Connections in a backlog -/

/-- A process does not have a connection yet that waits in its backlog. -/
structure Unheld (s : World) : Prop where
  queue : ∀ i, (s.backlog i).Nodup
  unused : ∀ i, ∀ k ∈ s.backlog i, ∀ p, ¬ (s.processes i).Holds p k

namespace Unheld

variable {hosts : List PeerId} {s s' : World} {i : ProcId} {next : Process}

theorem init : Unheld {} :=
  ⟨fun _ => .nil, fun _ _ waits => nomatch waits⟩

/-- One process changes and has no connection that it did not have before. -/
theorem setProcess (h : Unheld s) (processes : s'.processes = Function.update s.processes i next)
    (backlog : s'.backlog = s.backlog)
    (back : ∀ p k, next.Holds p k → (s.processes i).Holds p k) : Unheld s' := by
  refine ⟨fun j => ?_, fun j k waits p holds => ?_⟩
  · rw [backlog]
    exact h.queue j
  · rw [backlog] at waits
    rw [processes, Function.update_apply] at holds
    split at holds
    · rename_i here
      subst here
      exact h.unused j k waits p (back p k holds)
    · exact h.unused j k waits p holds

/-- A thread goes on without a new connection. -/
theorem thread (h : Unheld s) {t : Thread} {label : Label}
    (step : ThreadStep (s.processes i) t label next)
    (processes : s'.processes = Function.update s.processes i next)
    (backlog : s'.backlog = s.backlog) (connected : ∀ p k, label ≠ .connected p k)
    (accepted : ∀ close k p, label ≠ .accepted close k p) : Unheld s' := by
  refine h.setProcess processes backlog fun p k holds => ?_
  rcases step.holds holds with before | new | ⟨close, new⟩
  · exact before
  · exact (connected p k new).elim
  · exact (accepted close k p new).elim

/-- Process `i` connects to process `j`. -/
theorem connected (h : Unheld s) (wired : Wired s) {j : ProcId}
    (holds : ∀ p k, next.Holds p k → (s.processes i).Holds p k ∨ k = s.nextSocket) :
    Unheld ((s.openConnection i j).setProcess i next) := by
  have old : ∀ k, k ∈ s.backlog j → k ≠ s.nextSocket.peer := by
    rintro k waits rfl
    exact Nat.lt_irrefl _ (wired.waiting j _ waits).1
  refine ⟨fun l => ?_, fun l k waits p held => ?_⟩
  · rw [World.backlog_openConnection]
    split
    · refine List.nodup_append.mpr ⟨h.queue j, List.nodup_singleton _, ?_⟩
      rintro k waits k' new rfl
      exact old k waits (List.mem_singleton.mp new)
    · exact h.queue l
  · have before : (s.processes l).Holds p k ∨ k = s.nextSocket := by
      change (Function.update s.processes i next l).Holds p k at held
      rw [Function.update_apply] at held
      split at held
      · rename_i here
        subst here
        exact holds p k held
      · exact Or.inl held
    rcases World.mem_backlog_openConnection waits with waits | ⟨rfl, rfl⟩
    · rcases before with before | rfl
      · exact h.unused l k waits p before
      · exact Nat.lt_irrefl _ (wired.waiting l _ waits).1
    · rcases before with before | same
      · exact Nat.lt_irrefl _ (wired.held l p _ before).1
      · exact Socket.peer_ne _ same

/-- Process `i` accepts the connection at the head of its backlog. -/
theorem accepted (h : Unheld s) {close : Bool} {client : Socket} {rest : List Socket}
    (head : s.backlog i = client :: rest)
    (holds : ∀ p k, next.Holds p k → (s.processes i).Holds p k ∨ k = client) :
    Unheld ((s.acceptConnection i close rest).setProcess i next) := by
  have queue := h.queue i
  rw [head, List.nodup_cons] at queue
  have backlog : ∀ l, ((s.acceptConnection i close rest).setProcess i next).backlog l =
      if l = i then (if close then [] else rest) else s.backlog l :=
    fun l => Function.update_apply s.backlog i _ l
  refine ⟨fun l => ?_, fun l k waits p held => ?_⟩
  · rw [backlog]
    split
    · split
      · exact .nil
      · exact queue.2
    · exact h.queue l
  · rw [backlog] at waits
    change (Function.update s.processes i next l).Holds p k at held
    rw [Function.update_apply] at held
    split at waits
    · rename_i here
      subst here
      rw [if_pos rfl] at held
      split at waits
      · cases waits
      · rcases holds p k held with before | rfl
        · exact h.unused l k (by rw [head]; exact List.mem_cons_of_mem _ waits) p before
        · exact queue.1 waits
    · rename_i other
      rw [if_neg other] at held
      exact h.unused l k waits p held

theorem step (h : Unheld s) (wired : Wired s) {e : Event} (taken : s.step hosts e = some s') :
    Unheld s' := by
  cases worldStep_of_step taken with
  | start listed down =>
      refine h.setProcess rfl rfl fun p k holds => ?_
      rcases holds with found | ⟨_, _, _, place⟩
      · cases found
      · cases place
  | crash running =>
      exact h.setProcess rfl rfl fun p k holds =>
        holds.back_main rfl fun _ _ _ _ _ same => nomatch same
  | heartBeat running idle other => exact h.setProcess rfl rfl fun _ _ holds => holds
  | @tick i order running idle all =>
      obtain ⟨leaderCrashed, detector, heartBeats, suspect, same⟩ := (s.processes i).tick_eq order
      rw [same]
      exact h.setProcess rfl rfl fun _ _ holds => holds
  | silent running step => exact h.thread step rfl rfl nofun nofun
  | sent running step => exact h.thread step rfl rfl nofun nofun
  | failed running ended step => exact h.thread step rfl rfl nofun nofun
  | received running head step => exact h.thread step rfl rfl nofun nofun
  | lost running empty ended step => exact h.thread step rfl rfl nofun nofun
  | connected running known listens step =>
      refine h.connected wired fun p k holds => ?_
      rcases step.holds holds with before | new | ⟨_, new⟩
      · exact Or.inl before
      · cases new
        exact Or.inr rfl
      · cases new
  | refused running deaf step => exact h.thread step rfl rfl nofun nofun
  | accepted running head step =>
      refine h.accepted head fun p k holds => ?_
      rcases step.holds holds with before | new | ⟨_, new⟩
      · exact Or.inl before
      · cases new
      · cases new
        exact Or.inr rfl

end Unheld

theorem unheld_of_reachable {hosts : List PeerId} {s : World}
    (reach : Reach (World.step hosts) Always {} s) : Unheld s :=
  reach.invariant_with (P := Unheld) (fun _ => wired_of_reachable) .init
    fun _ _ _ wired h _ taken => h.step wired taken

/-! ## A leader goes on as a leader -/

/-- Whether the thread is in the loop of `startAsLeader`. -/
def MainState.serving : MainState → Bool
  | accept => true
  | addPeer _ => true
  | _ => false

theorem Process.serving_setOperation (pr : Process) (operation : Operation) (t : Thread)
    (serving : pr.main.serving = true) :
    (pr.setOperation operation t).main.serving = true := by
  unfold setOperation
  split
  · split
    · rename_i place
      rw [place] at serving
      cases serving
    · rfl
  · exact serving

theorem Process.serving_finishOperation {pr : Process} (serving : pr.main.serving = true)
    (t : Thread) : (pr.finishOperation t).main.serving = true ∧
      (pr.finishOperation t).service = pr.service := by
  unfold finishOperation
  split
  · split
    · rename_i place
      rw [place] at serving
      cases serving
    · exact ⟨rfl, rfl⟩
  · exact ⟨serving, rfl⟩

/-- Outside `accept` and the first block of `modifyGroupMembership` a leader leaves its map
alone. -/
theorem ThreadStep.serving {pr next : Process} {t : Thread} {label : Label}
    (step : ThreadStep pr t label next) (serving : pr.main.serving = true)
    (unlocking : ∀ requestMsg, pr.operation t ≠ some (.lock requestMsg))
    (busy : ¬ (t = .main ∧ pr.main = .accept)) :
    next.running = false ∨ next.main.serving = true ∧
      next.service.tcpClientMap = pr.service.tcpClientMap := by
  have goesOn : ∀ operation, (pr.setOperation operation t).main.serving = true ∧
      (pr.setOperation operation t).service.tcpClientMap = pr.service.tcpClientMap :=
    fun operation => ⟨pr.serving_setOperation operation t serving,
      by rw [Process.service_setOperation]⟩
  have elsewhere : ∀ {place : MainState}, pr.main = place → place.serving = false →
      next.running = false ∨ next.main.serving = true ∧
        next.service.tcpClientMap = pr.service.tcpClientMap := by
    rintro place rfl away
    rw [serving] at away
    cases away
  cases step with
  | dies => exact Or.inl rfl
  | call place =>
      right
      rw [Process.service_setOperation]
      exact ⟨Process.serving_setOperation _ _ t serving, rfl⟩
  | lock place => exact (unlocking _ place).elim
  | newView place =>
      right
      rw [Process.service_setOperation]
      exact ⟨Process.serving_setOperation _ _ t serving, rfl⟩
  | sendRequestMsg place => exact Or.inr (goesOn _)
  | requestsSent place => exact Or.inr (goesOn _)
  | waitForOkMsg place => exact Or.inr (goesOn _)
  | printNewlyInstalledView place => exact Or.inr (goesOn _)
  | sendNewViewMsg place => exact Or.inr (goesOn _)
  | lockView place => exact Or.inr (goesOn _)
  | deliver place => exact Or.inr (goesOn _)
  | delivered place =>
      obtain ⟨still, service⟩ := Process.serving_finishOperation serving t
      exact Or.inr ⟨still, by rw [service]⟩
  | accept place => exact (busy ⟨rfl, place⟩).elim
  | skipMyself place => exact elsewhere place rfl
  | leaderFound place => exact elsewhere place rfl
  | noLeaderThere place => exact elsewhere place rfl
  | noLeaderFound place => exact elsewhere place rfl
  | startAsLeader place => exact elsewhere place rfl
  | followerReceives place => exact elsewhere place rfl
  | leaderLost place => exact elsewhere place rfl
  | sendOkMsg place => exact elsewhere place rfl
  | okMsgFailed place => exact elsewhere place rfl
  | waitForLeaderCrash place => exact elsewhere place rfl
  | handleLeaderCrash place => exact elsewhere place rfl
  | reconnect place => exact elsewhere place rfl
  | unreachable place => exact elsewhere place rfl
  | reconnected place => exact elsewhere place rfl
  | introduce place => exact elsewhere place rfl
  | introduceFailed place => exact elsewhere place rfl
  | pendingRequest place => exact elsewhere place rfl
  | notConnected place => exact elsewhere place rfl
  | completeRequest place => exact elsewhere place rfl
  | nothingPending place => exact elsewhere place rfl
  | waitForNewLeaderMsg place => exact elsewhere place rfl
  | greet place => exact elsewhere place rfl
  | sendPendingRequestMsg place => exact elsewhere place rfl

/-! ## The map of a leader -/

/-- The map of a running process has, for a peer that it has accepted, the connection that was
there before, or else the accepted one. -/
structure Remembers (pr : Process) (newest : PeerId → Option Accepted) : Prop where
  serving : ∀ p a, newest p = some a → pr.main.serving = true
  found : ∀ p a, newest p = some a →
    pr.service.tcpClientMap p = some (a.known.getD a.client)
  /-- The accepted connection is a new one. -/
  apart : ∀ p a, newest p = some a → a.known ≠ some a.client

structure Current (s : Watched) : Prop where
  started : ∀ i p a, s.newest i p = some a → i < s.world.started
  remembers : ∀ i, (s.world.processes i).running = true →
    Remembers (s.world.processes i) (s.newest i)

theorem Process.effect_operation {pr : Process} {t : Thread} {operation : Operation}
    (place : pr.operation t = some operation) : pr.effect t = pr.operationEffect t operation := by
  rcases operation_cases place with ⟨rfl, main⟩ | ⟨rfl, main⟩ | ⟨rfl, detector⟩
  · unfold effect mainEffect
    dsimp only
    rw [main]
  · unfold effect mainEffect
    dsimp only
    rw [main]
  · unfold effect
    dsimp only
    rw [detector]

namespace Remembers

variable {pr next : Process} {newest : PeerId → Option Accepted}

theorem of_same (h : Remembers pr newest)
    (serving : pr.main.serving = true → next.main.serving = true)
    (tcpClientMap : pr.main.serving = true →
      next.service.tcpClientMap = pr.service.tcpClientMap) : Remembers next newest := by
  refine ⟨fun p a entry => serving (h.serving p a entry), fun p a entry => ?_, h.apart⟩
  rw [tcpClientMap (h.serving p a entry)]
  exact h.found p a entry

theorem nothing (none : ∀ p, newest p = none) : Remembers pr newest := by
  refine ⟨fun p a entry => ?_, fun p a entry => ?_, fun p a entry => ?_⟩ <;>
  · rw [none p] at entry
    cases entry

/-- The first block of `modifyGroupMembership`. -/
theorem beginOperation (h : Remembers pr newest) (requestMsg : RequestMsg) (t : Thread)
    (operation : Operation) : Remembers ((pr.beginOperation requestMsg).setOperation operation t)
      (if requestMsg.operationType = .DEL then Function.update newest requestMsg.peerId none
        else newest) := by
  have serving : pr.main.serving = true →
      ((pr.beginOperation requestMsg).setOperation operation t).main.serving = true :=
    (pr.beginOperation requestMsg).serving_setOperation operation t
  split
  · rename_i deletes
    have others : ∀ {p a}, Function.update newest requestMsg.peerId none p = some a →
        p ≠ requestMsg.peerId ∧ newest p = some a := by
      intro p a entry
      rw [Function.update_apply] at entry
      split at entry
      · cases entry
      · rename_i other
        exact ⟨other, entry⟩
    refine ⟨fun p a entry => serving (h.serving p a (others entry).2), fun p a entry => ?_,
      fun p a entry => h.apart p a (others entry).2⟩
    obtain ⟨other, entry⟩ := others entry
    rw [Process.service_setOperation]
    unfold Process.beginOperation beginModification
    dsimp only
    rw [if_pos deletes]
    dsimp only
    rw [Function.update_of_ne other]
    exact h.found p a entry
  · rename_i adds
    refine h.of_same serving fun _ => ?_
    rw [Process.service_setOperation]
    unfold Process.beginOperation beginModification
    dsimp only
    rw [if_neg adds]

/-- A connection is accepted. -/
theorem accept (h : Remembers pr newest) {p : PeerId} {client : Socket}
    (unused : pr.service.tcpClientMap p ≠ some client) {operation : Operation} :
    Remembers
      { pr with service := pr.service.insertClient p client, main := .addPeer operation }
      (Function.update newest p (some ⟨client, pr.service.tcpClientMap p⟩)) := by
  refine ⟨fun _ _ _ => rfl, fun q a entry => ?_, fun q a entry => ?_⟩
  · change Function.update pr.service.tcpClientMap p _ q = _
    rw [Function.update_apply] at entry ⊢
    split at entry
    · rename_i same
      cases entry
      rw [if_pos same]
    · rename_i other
      rw [if_neg other]
      exact h.found q a entry
  · rw [Function.update_apply] at entry
    split at entry
    · cases entry
      exact unused
    · exact h.apart q a entry

end Remembers

namespace Current

variable {hosts : List PeerId} {s s' : Watched} {i : ProcId} {next : Process}

theorem init : Current {} :=
  ⟨nofun, fun _ _ => .nothing fun _ => rfl⟩

/-- One process changes, and the record of what it has accepted. -/
theorem replace (h : Current s) {world : World} {newest : ProcId → PeerId → Option Accepted}
    (processes : world.processes = Function.update s.world.processes i next)
    (grown : s.world.started ≤ world.started) (elsewhere : ∀ j, j ≠ i → newest j = s.newest j)
    (known : ∀ p a, newest i p = some a → i < s.world.started)
    (here : next.running = true → Remembers next (newest i)) : Current ⟨world, newest⟩ := by
  refine ⟨fun j p a entry => ?_, fun j running => ?_⟩
  · by_cases same : j = i
    · subst same
      exact (known p a entry).trans_le grown
    · change newest j p = some a at entry
      rw [elsewhere j same] at entry
      exact (h.started j p a entry).trans_le grown
  · dsimp only at running ⊢
    rw [processes, Function.update_apply] at running ⊢
    split at running
    · rename_i same
      subst same
      rw [if_pos rfl]
      exact here running
    · rename_i other
      rw [if_neg other, elsewhere j other]
      exact h.remembers j running

/-- Nothing is accepted or deleted. -/
theorem quiet (h : Current s) {world : World}
    (processes : world.processes = Function.update s.world.processes i next)
    (grown : s.world.started ≤ world.started)
    (here : next.running = true → Remembers next (s.newest i)) : Current ⟨world, s.newest⟩ :=
  h.replace processes grown (fun _ _ => rfl) (h.started i) here

/-- A step of a thread that neither accepts nor deletes. -/
theorem thread (h : Current s) {t : Thread} {label : Label} {world : World}
    (running : (s.world.processes i).running = true)
    (step : ThreadStep (s.world.processes i) t label next)
    (unlocking : ∀ requestMsg, (s.world.processes i).operation t ≠ some (.lock requestMsg))
    (busy : ¬ (t = .main ∧ (s.world.processes i).main = .accept))
    (processes : world.processes = Function.update s.world.processes i next)
    (grown : s.world.started ≤ world.started) : Current ⟨world, s.newest⟩ := by
  refine h.quiet processes grown fun alive => ?_
  have goesOn : (s.world.processes i).main.serving = true → next.main.serving = true ∧
      next.service.tcpClientMap = (s.world.processes i).service.tcpClientMap := by
    intro serving
    rcases step.serving serving unlocking busy with dead | goesOn
    · rw [alive] at dead
      cases dead
    · exact goesOn
  exact (h.remembers i running).of_same (fun serving => (goesOn serving).1)
    fun serving => (goesOn serving).2

/-- The first block of `modifyGroupMembership` is entered. -/
theorem lock (wired : Wired s.world) (h : Current s) {t : Thread} {requestMsg : RequestMsg}
    {world : World} (running : (s.world.processes i).running = true)
    (place : (s.world.processes i).operation t = some (.lock requestMsg))
    (performed : s.world.perform i ((s.world.processes i).effect t) = some world) :
    Current ⟨world, s.note (.run i t)⟩ := by
  have noted : s.note (.run i t) = if requestMsg.operationType = .DEL then
      s.record i requestMsg.peerId none else s.newest := by
    unfold Watched.note
    dsimp only
    rw [place]
  rw [Process.effect_operation place] at performed
  unfold Process.operationEffect at performed
  dsimp only at performed
  split at performed
  · cases performed
  · cases performed
    have began := (h.remembers i running).beginOperation requestMsg t
      (.sendRequestMsg requestMsg
        ((s.world.processes i).beginOperation requestMsg).service.alivePeers.toList)
    rw [noted]
    split
    · rename_i deletes
      rw [if_pos deletes] at began
      refine h.replace rfl le_rfl (fun j other => Function.update_of_ne other _ _) ?_ fun _ => ?_
      · exact fun _ _ _ => wired.started i running
      · rw [Watched.record, Function.update_self]
        exact began
    · rename_i adds
      rw [if_neg adds] at began
      exact h.quiet rfl le_rfl fun _ => began

/-- `startAsLeader` accepts a connection. -/
theorem accept (wired : Wired s.world) (unheld : Unheld s.world) (h : Current s) {world : World}
    (running : (s.world.processes i).running = true)
    (place : (s.world.processes i).main = .accept)
    (performed : s.world.perform i ((s.world.processes i).effect .main) = some world) :
    Current ⟨world, s.note (.run i .main)⟩ := by
  have eff : (s.world.processes i).effect .main = (s.world.processes i).mainEffect := rfl
  have noOperation : (s.world.processes i).operation .main = none := by
    unfold Process.operation
    dsimp only
    rw [place]
  rw [eff, Process.mainEffect, place] at performed
  unfold World.perform at performed
  dsimp only at performed
  split at performed
  · rename_i client rest head
    cases performed
    have noted : s.note (.run i .main) = s.record i
        (s.world.processes (s.world.owner client.peer)).me (some ⟨client,
          (s.world.processes i).service.tcpClientMap
            (s.world.processes (s.world.owner client.peer)).me⟩) := by
      unfold Watched.note
      dsimp only
      rw [noOperation]
      dsimp only
      rw [if_pos ⟨rfl, place⟩, head]
    have unused := unheld.unused i client (by rw [head]; exact List.mem_cons_self)
    rw [noted]
    refine h.replace rfl le_rfl (fun j other => Function.update_of_ne other _ _) ?_ fun _ => ?_
    · exact fun _ _ _ => wired.started i running
    · rw [Watched.record, Function.update_self]
      exact (h.remembers i running).accept fun found => unused _ (Or.inl found)
  · cases performed

theorem step (wired : Wired s.world) (unheld : Unheld s.world) (h : Current s) {e : Event}
    (taken : s.step hosts e = some s') : Current s' := by
  obtain ⟨world, stepped, rfl⟩ := Option.map_eq_some_iff.mp taken
  cases e with
  | start p =>
      cases worldStep_of_step stepped with
      | start listed down =>
          refine h.quiet rfl (Nat.le_succ _) fun _ => .nothing fun q => ?_
          exact Option.eq_none_iff_forall_ne_some.mpr fun a entry =>
            Nat.lt_irrefl _ (h.started _ q a entry)
  | crash j =>
      cases worldStep_of_step stepped with
      | crash running => exact h.quiet rfl le_rfl fun alive => by cases alive
  | heartBeat j p =>
      cases worldStep_of_step stepped with
      | heartBeat running idle other =>
          exact h.quiet rfl le_rfl fun _ => (h.remembers j running).of_same id fun _ => rfl
  | tick j order =>
      cases worldStep_of_step stepped with
      | tick running idle all =>
          obtain ⟨leaderCrashed, detector, heartBeats, suspect, same⟩ :=
            (s.world.processes j).tick_eq order
          rw [same]
          exact h.quiet rfl le_rfl fun _ => (h.remembers j running).of_same id fun _ => rfl
  | fail j t =>
      cases worldStep_of_step stepped with
      | failed running ended step =>
          cases step with
          | dies => exact h.quiet rfl le_rfl fun alive => by cases alive
          | okMsgFailed place found =>
              refine h.thread running (.okMsgFailed place found) (fun _ locks => ?_)
                (fun accepts => ?_) rfl le_rfl
              · rw [Process.operation, place] at locks
                cases locks
              · rw [place] at accepts
                cases accepts.2
          | introduceFailed place =>
              refine h.thread running (.introduceFailed place) (fun _ locks => ?_)
                (fun accepts => ?_) rfl le_rfl
              · rw [Process.operation, place] at locks
                cases locks
              · rw [place] at accepts
                cases accepts.2
  | run j t =>
      have running : (s.world.processes j).running = true := by
        by_contra dead
        rw [World.step, if_neg dead] at stepped
        cases stepped
      have performed := stepped
      rw [World.step, if_pos running] at performed
      by_cases locks : ∃ requestMsg, (s.world.processes j).operation t = some (.lock requestMsg)
      · obtain ⟨requestMsg, place⟩ := locks
        exact h.lock wired running place performed
      · by_cases accepts : t = .main ∧ (s.world.processes j).main = .accept
        · obtain ⟨rfl, place⟩ := accepts
          exact h.accept wired unheld running place performed
        · have unlocking : ∀ requestMsg,
              (s.world.processes j).operation t ≠ some (.lock requestMsg) :=
            fun requestMsg place => locks ⟨requestMsg, place⟩
          have noted : s.note (.run j t) = s.newest := by
            unfold Watched.note
            dsimp only
            split
            · rename_i requestMsg place
              exact (unlocking requestMsg place).elim
            · rw [if_neg accepts]
          rw [noted]
          cases worldStep_of_step stepped with
          | silent _ step => exact h.thread running step unlocking accepts rfl le_rfl
          | sent _ step => exact h.thread running step unlocking accepts rfl le_rfl
          | received _ head step => exact h.thread running step unlocking accepts rfl le_rfl
          | lost _ empty ended step => exact h.thread running step unlocking accepts rfl le_rfl
          | connected _ known listens step =>
              exact h.thread running step unlocking accepts rfl le_rfl
          | refused _ deaf step => exact h.thread running step unlocking accepts rfl le_rfl
          | accepted _ head step => exact h.thread running step unlocking accepts rfl le_rfl

end Current

theorem Watched.world_of_reach {hosts : List PeerId} {s : Watched}
    (reach : Reach (Watched.step hosts) Always {} s) :
    Reach (World.step hosts) Always {} s.world := by
  refine reach.invariant (P := fun s => Reach (World.step hosts) Always {} s.world) .start ?_
  intro s e s' before _ taken
  obtain ⟨world, stepped, rfl⟩ := Option.map_eq_some_iff.mp taken
  exact .next before trivial stepped

theorem current_of_reach {hosts : List PeerId} {s : Watched}
    (reach : Reach (Watched.step hosts) Always {} s) : Current s := by
  refine reach.invariant_with (P := Current) (fun _ => Watched.world_of_reach) .init ?_
  intro s e s' world h _ taken
  exact h.step (wired_of_reachable world) (unheld_of_reachable world) taken

/-- A peer that is addressed in `modifyGroupMembership` or `sendNewViewMsg` is addressed over the
connection that the map has for it. -/
theorem Process.client_of_rest {pr : Process} {t : Thread} {operation : Operation} {p : PeerId}
    (place : pr.operation t = some operation) (addressed : operation.rest.head? = some p) :
    (pr.effect t).client = pr.service.tcpClientMap p := by
  rw [effect_operation place]
  cases operation with
  | sendRequestMsg requestMsg rest =>
      cases rest with
      | nil => cases addressed
      | cons q rest =>
          cases addressed
          unfold operationEffect sendTo
          dsimp only
          split
          · rename_i client found
            rw [found]
            rfl
          · rename_i missing
            rw [missing]
            rfl
  | waitForOkMsg requestMsg rest =>
      cases rest with
      | nil => cases addressed
      | cons q rest =>
          cases addressed
          unfold operationEffect
          dsimp only
          split
          · rename_i client found
            rw [found]
            rfl
          · rename_i missing
            rw [missing]
            rfl
  | deliver newViewMsg rest =>
      cases rest with
      | nil => cases addressed
      | cons q rest =>
          cases addressed
          unfold operationEffect sendTo
          dsimp only
          split
          · rename_i client found
            rw [found]
            rfl
          · rename_i missing
            rw [missing]
            rfl
  | _ => cases addressed

/-- **The connection that a leader uses.**  In every run, whenever a thread is about to use the
connection of a peer whose connection `startAsLeader` has accepted, in `sendRequestMsg`,
`waitForOkMsg` or `sendNewViewMsg`, it uses the one accepted last if and only if there was none
in the map when that one was accepted. -/
theorem newest_client_iff {hosts : List PeerId} {s : Watched}
    (reach : Reach (Watched.step hosts) Always {} s) {i : ProcId} {t : Thread}
    {operation : Operation} {p : PeerId} {a : Accepted}
    (running : (s.world.processes i).running = true)
    (place : (s.world.processes i).operation t = some operation)
    (addressed : operation.rest.head? = some p) (accepted : s.newest i p = some a) :
    ((s.world.processes i).effect t).client = some a.client ↔ a.known = none := by
  have remembers := (current_of_reach reach).remembers i running
  have apart := remembers.apart p a accepted
  rw [Process.client_of_rest place addressed, remembers.found p a accepted, Option.some_inj]
  cases known : a.known with
  | none => exact ⟨fun _ => rfl, fun _ => rfl⟩
  | some old =>
      rw [known] at apart
      exact ⟨fun same => (apart (congrArg some same)).elim, nofun⟩

/-- Host 2 has joined host 1; it crashes, starts again and joins anew before host 1 has noticed. -/
def rejoiningRun : List Event :=
  addingRun ++ mainSteps 0 2 ++ [.crash 1, .start 2] ++ mainSteps 2 1 ++ mainSteps 0 3

theorem rejoiningRun_through :
    (replay (Watched.step [1, 2, 3, 4, 5]) {} rejoiningRun).isSome = true := by
  decide +kernel

def rejoiningState : Watched :=
  (replay (Watched.step [1, 2, 3, 4, 5]) {} rejoiningRun).get rejoiningRun_through

/-- Host 1 is about to send the request over the connection of the process that has crashed. -/
theorem old_client_used : ¬ ∀ (hosts : List PeerId) (s : Watched) (i : ProcId) (t : Thread)
    (operation : Operation) (p : PeerId) (a : Accepted),
    Reach (Watched.step hosts) Always {} s → (s.world.processes i).running = true →
    (s.world.processes i).operation t = some operation → operation.rest.head? = some p →
      s.newest i p = some a → ((s.world.processes i).effect t).client = some a.client := by
  intro always
  have reach : Reach (Watched.step [1, 2, 3, 4, 5]) Always {} rejoiningState :=
    .of_isSome (allowedAlong_always _ _) rejoiningRun_through
  have uses := always _ _ (0 : ProcId) .main (.sendRequestMsg ⟨1, 3, 2, .ADD, 2⟩ [2]) (2 : PeerId)
    ⟨⟨1, false⟩, some ⟨0, false⟩⟩ reach (by decide +kernel) (by decide +kernel) rfl
    (by decide +kernel)
  revert uses
  decide +kernel

theorem addingRun_watched :
    (replay (Watched.step [1, 2, 3, 4, 5]) {} addingRun).isSome = true := by
  decide +kernel

theorem newest_client_iff_adding :
    let s := (replay (Watched.step [1, 2, 3, 4, 5]) {} addingRun).get addingRun_watched
    ((s.world.processes 0).effect .main).client = some ⟨0, false⟩ ↔ (none : Option Socket) = none :=
  newest_client_iff (i := 0) (t := .main) (p := 2) (a := ⟨⟨0, false⟩, none⟩)
    (.of_isSome (allowedAlong_always _ _) addingRun_watched) (by decide +kernel)
    (show _ = some (.deliver ⟨3, 2, [1, 2]⟩ [2]) by decide +kernel) rfl (by decide +kernel)

/-! ## Where every peer is new -/

/-- `startAsLeader` only accepts a peer for which the map has no connection. -/
def AcceptsUnknown (s : Watched) : Event → Prop
  | .run i t => t = .main → (s.world.processes i).main = .accept →
      ∀ client ∈ (s.world.backlog i).head?, (s.world.processes i).service.tcpClientMap
        (s.world.processes (s.world.owner client.peer)).me = none
  | _ => True

/-- A thread leaves the record alone, takes an entry out of it or accepts a connection. -/
theorem Watched.note_run (s : Watched) (i : ProcId) (t : Thread) :
    s.note (.run i t) = s.newest ∨ (∃ p, s.note (.run i t) = s.record i p none) ∨
      t = .main ∧ (s.world.processes i).main = .accept ∧ ∃ client ∈ (s.world.backlog i).head?,
        let newPeerId := (s.world.processes (s.world.owner client.peer)).me
        s.note (.run i t) = s.record i newPeerId
          (some ⟨client, (s.world.processes i).service.tcpClientMap newPeerId⟩) := by
  unfold note
  dsimp only
  split
  · split
    · exact Or.inr (Or.inl ⟨_, rfl⟩)
    · exact Or.inl rfl
  · split
    · rename_i accepts
      split
      · rename_i client rest head
        refine Or.inr (Or.inr ⟨accepts.1, accepts.2, client, ?_, rfl⟩)
        rw [head]
        rfl
      · exact Or.inl rfl
    · exact Or.inl rfl

/-- Where only unknown peers are accepted, no entry has a connection that was there before. -/
theorem Watched.unknown_of_note {s : Watched} {e : Event} {i : ProcId} {p : PeerId} {a : Accepted}
    (entry : s.note e i p = some a) (unknown : AcceptsUnknown s e) :
    s.newest i p = some a ∨ a.known = none := by
  have recorded : ∀ {j q b}, s.record j q b i p = some a → s.newest i p = some a ∨ b = some a := by
    intro j q b entry
    unfold record at entry
    rw [Function.update_apply] at entry
    split at entry
    · rename_i same
      subst same
      rw [Function.update_apply] at entry
      split at entry
      · exact Or.inr entry
      · exact Or.inl entry
    · exact Or.inl entry
  cases e with
  | run j t =>
      rcases s.note_run j t with same | ⟨q, same⟩ | ⟨main, accepts, client, head, same⟩
      · rw [same] at entry
        exact Or.inl entry
      · rw [same] at entry
        rcases recorded entry with before | new
        · exact Or.inl before
        · cases new
      · dsimp only at same
        rw [same] at entry
        rcases recorded entry with before | new
        · exact Or.inl before
        · cases new
          exact Or.inr (unknown main accepts client head)
  | _ => exact Or.inl entry

/-- In a run in which every peer that is accepted is one that the map has no connection for, a
leader always uses the newest connection. -/
theorem newest_client_of_unknown {hosts : List PeerId} {s : Watched}
    (reach : Reach (Watched.step hosts) AcceptsUnknown {} s) {i : ProcId} {t : Thread}
    {operation : Operation} {p : PeerId} {a : Accepted}
    (running : (s.world.processes i).running = true)
    (place : (s.world.processes i).operation t = some operation)
    (addressed : operation.rest.head? = some p) (accepted : s.newest i p = some a) :
    ((s.world.processes i).effect t).client = some a.client := by
  have unknown : ∀ i p a, s.newest i p = some a → a.known = none := by
    refine reach.invariant (P := fun s => ∀ i p a, s.newest i p = some a → a.known = none) ?_ ?_
    · intro i p a entry
      cases entry
    intro s e s' before allowed taken i p a entry
    obtain ⟨world, stepped, rfl⟩ := Option.map_eq_some_iff.mp taken
    rcases Watched.unknown_of_note entry allowed with old | none
    · exact before i p a old
    · exact none
  have remembers := (current_of_reach reach.always).remembers i running
  rw [Process.client_of_rest place addressed, remembers.found p a accepted, unknown i p a accepted]
  rfl

end GroupComm.Lab2
