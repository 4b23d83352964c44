import Mathlib.Algebra.GroupWithZero.Nat
import Mathlib.Algebra.Order.BigOperators.Group.Finset
import Mathlib.Data.Prod.Lex
import GroupComm.Lab1.Recording
import GroupComm.Library.Fairness

/-!
# A snapshot is completed

As long as some thread of some process goes on whenever one can, the snapshot that the initiator
has called for is completed everywhere (`snapshot_completes`): the two mutexes of a process never
block all of its threads, no marker is left in a backlog, and `start` gets all its connections.

* `Accounts` counts the markers: those sent are those in the backlog and those with a thread, and
  those handled are the threads that are done.
* `System.toDo` is what is left to do.  The messages that are recorded meanwhile do not count.
-/

namespace GroupComm.Lab1.Snapshot

open Transition

variable {Host Text State : Type} [DecidableEq Host]

/-! ## Counting threads -/

/-- The sum of a weight over the threads. -/
def Process.total (pr : Process Host Text State) (w : Thread Host → ℕ) : ℕ :=
  (pr.threads.map w).sum

/-- A thread for a marker of the sender. -/
def Thread.isFor (sender : Host) (t : Thread Host) : ℕ :=
  if t.sender = some sender then 1 else 0

def Thread.isDoneFor (sender : Host) (t : Thread Host) : ℕ :=
  match t.state with
  | .done => t.isFor sender
  | _ => 0

/-- The thread that has called `takeSnapshot()`. -/
def Thread.isCaller (t : Thread Host) : ℕ :=
  if t.sender = none then 1 else 0

/-- The markers that a thread has still to send to a peer. -/
def Thread.toSend (peer : Host) (t : Thread Host) : ℕ :=
  match t.state with
  | .sendMarkerMessageToPeers rest => rest.count peer
  | _ => 0

section Threads

variable {pr : Process Host Text State} {k : ℕ} {t : Thread Host} {state : ThreadState Host}
  {w : Thread Host → ℕ}

omit [DecidableEq Host] in
theorem sum_set {l : List (Thread Host)} {k : ℕ} (found : l[k]? = some t) (u : Thread Host) :
    ((l.set k u).map w).sum + w t = (l.map w).sum + w u := by
  induction l generalizing k with
  | nil => cases found
  | cons v l ih =>
      cases k with
      | zero =>
          cases found
          simp only [List.set_cons_zero, List.map_cons, List.sum_cons]
          omega
      | succ k =>
          have rest := ih (by simpa using found)
          simp only [List.set_cons_succ, List.map_cons, List.sum_cons]
          omega

omit [DecidableEq Host] in
/-- A thread goes on. -/
theorem total_goOn (state : ThreadState Host) (w : Thread Host → ℕ)
    (found : pr.threads[k]? = some t) :
    (pr.goOn k t state).total w + w t = pr.total w + w ⟨t.sender, state⟩ :=
  sum_set found _

omit [DecidableEq Host] in
/-- A thread is started. -/
theorem total_accept : Process.total { pr with threads := pr.threads ++ [t] } w =
    pr.total w + w t := by
  unfold Process.total
  dsimp only
  rw [List.map_append, List.sum_append, List.map_singleton, List.sum_singleton]

omit [DecidableEq Host] in
theorem total_eq_zero (none : ∀ t ∈ pr.threads, w t = 0) : pr.total w = 0 := by
  unfold Process.total
  exact List.sum_eq_zero fun n mem => by
    obtain ⟨t, there, rfl⟩ := List.mem_map.mp mem
    exact none t there

omit [DecidableEq Host] in
theorem exists_of_total (some : pr.total w ≠ 0) : ∃ t ∈ pr.threads, w t ≠ 0 := by
  by_contra none
  push Not at none
  exact some (total_eq_zero none)

omit [DecidableEq Host] in
theorem le_total (mem : t ∈ pr.threads) : w t ≤ pr.total w :=
  List.le_sum_of_mem (List.mem_map_of_mem mem)

end Threads

/-! ## Where the markers are -/

structure Accounts (D : Deployment Host) (s : System Host Text State) : Prop where
  /-- A marker that has been sent waits or has a thread. -/
  delivered : ∀ p q, (s.backlog p).count q + (s.processes p).total (Thread.isFor q) =
    markersTo p (s.processes q).log
  handled : ∀ p q, (s.processes p).log.countP (Action.handles q) =
    (s.processes p).total (Thread.isDoneFor q)
  /-- Who has captured its state sends a marker to every peer. -/
  sent : ∀ p peer, markersTo peer (s.processes p).log +
    (s.processes p).total (Thread.toSend peer) =
      captures (s.processes p).log * (D.allPeers p).count peer
  caller : (s.processes D.initiator).total Thread.isCaller = 1
  known : ∀ p, captures (s.processes p).log ≠ 0 → p ∈ D.hostnames

variable {D : Deployment Host} {p : Host} {s s' : System Host Text State}
  {next : Process Host Text State} {k : ℕ} {t : Thread Host} {state : ThreadState Host}

theorem Deployment.mem_allPeers {q : Host} :
    q ∈ D.allPeers p ↔ q ∈ D.hostnames ∧ q ≠ p := by
  rw [Deployment.allPeers, List.mem_filter, decide_eq_true_iff]

namespace Accounts

theorem initial (D : Deployment Host) :
    Accounts D (System.initial D : System Host Text State) := by
  have log (p : Host) : ((System.initial D : System Host Text State).processes p).log = [] := rfl
  have threads (p : Host) (t : Thread Host)
      (mem : t ∈ ((System.initial D : System Host Text State).processes p).threads) :
      t = ⟨none, .start⟩ := by
    change t ∈ (if p = D.initiator then [⟨none, .start⟩] else []) at mem
    split at mem
    · exact List.mem_singleton.mp mem
    · cases mem
  have nothing (w : Thread Host → ℕ) (zero : w ⟨none, .start⟩ = 0) (p : Host) :
      ((System.initial D : System Host Text State).processes p).total w = 0 :=
    total_eq_zero fun t mem => (threads p t mem).symm ▸ zero
  refine ⟨fun p q => ?_, fun p q => ?_, fun p peer => ?_, ?_, fun p captured => absurd rfl captured⟩
  · rw [nothing (Thread.isFor q) rfl p]
    rfl
  · rw [nothing (Thread.isDoneFor q) rfl p]
    rfl
  · rw [nothing (Thread.toSend peer) rfl p, log p]
    exact (Nat.zero_mul _).symm
  · change ((if D.initiator = D.initiator then [⟨none, .start⟩] else []).map
      Thread.isCaller).sum = 1
    rw [if_pos rfl]
    rfl

/-- A thread is only at a host of the deployment. -/
theorem mem_hostnames (h : Accounts D s) (sound : Sound D s)
    (mem : t ∈ (s.processes p).threads) : p ∈ D.hostnames := by
  obtain ⟨i, there⟩ := List.getElem?_of_mem mem
  obtain ⟨sender, state⟩ := t
  cases sender with
  | none =>
      have knows := (sound.turns p).knows there
      have here : p = D.initiator := by
        cases state with
        | start => exact knows.1
        | takeSnapshot _ => exact knows.1
        | sendMarkerMessageToPeers _ => exact knows.1
        | stopRecording => exact knows.elim
        | done => exact knows.1
      rw [here]
      exact D.known
  | some sender =>
      have one : 1 ≤ (s.processes p).total (Thread.isFor sender) := by
        have less := le_total (w := Thread.isFor sender) mem
        rwa [Thread.isFor, if_pos rfl] at less
      have delivered := h.delivered p sender
      have bound := (sound.announces sender).sent p
      exact (Deployment.mem_allPeers.mp
        (List.count_pos_iff.mp (by omega : 0 < (D.allPeers sender).count p))).1

theorem replace (h : Accounts D s) (processes : s'.processes = Function.update s.processes p next)
    (delivered : ∀ q r, (s'.backlog q).count r + (s'.processes q).total (Thread.isFor r) =
      markersTo q (s'.processes r).log)
    (isCaller : next.total Thread.isCaller = (s.processes p).total Thread.isCaller)
    (handled : ∀ q, next.log.countP (Action.handles q) = next.total (Thread.isDoneFor q))
    (sent : ∀ peer, markersTo peer next.log + next.total (Thread.toSend peer) =
      captures next.log * (D.allPeers p).count peer)
    (known : captures next.log ≠ 0 → p ∈ D.hostnames) : Accounts D s' := by
  have process (q : Host) : s'.processes q = if q = p then next else s.processes q := by
    rw [processes, Function.update_apply]
  refine ⟨delivered, fun q r => ?_, fun q peer => ?_, ?_, fun q => ?_⟩
  · rw [process]
    split
    · exact handled r
    · exact h.handled q r
  · rw [process]
    split
    · rename_i here
      rw [here]
      exact sent peer
    · exact h.sent q peer
  · rw [process]
    split
    · rename_i here
      rw [isCaller, ← here]
      exact h.caller
    · exact h.caller
  · rw [process]
    split
    · rename_i here
      rw [here]
      exact known
    · exact h.known q

/-- No marker is sent and none arrives. -/
theorem setProcess (h : Accounts D s)
    (isFor : ∀ q, next.total (Thread.isFor q) = (s.processes p).total (Thread.isFor q))
    (isCaller : next.total Thread.isCaller = (s.processes p).total Thread.isCaller)
    (markers : ∀ q, markersTo q next.log = markersTo q (s.processes p).log)
    (handled : ∀ q, next.log.countP (Action.handles q) = next.total (Thread.isDoneFor q))
    (sent : ∀ peer, markersTo peer next.log + next.total (Thread.toSend peer) =
      captures next.log * (D.allPeers p).count peer)
    (known : captures next.log ≠ 0 → p ∈ D.hostnames) : Accounts D (s.setProcess p next) := by
  have process (q : Host) :
      (s.setProcess p next).processes q = if q = p then next else s.processes q :=
    Function.update_apply _ _ _ _
  refine h.replace rfl (fun q r => ?_) isCaller handled sent known
  have same : ((s.setProcess p next).processes q).total (Thread.isFor r) =
      (s.processes q).total (Thread.isFor r) := by
    rw [process]
    split
    · rename_i here
      rw [here]
      exact isFor r
    · rfl
  have same' : markersTo q ((s.setProcess p next).processes r).log =
      markersTo q (s.processes r).log := by
    rw [process]
    split
    · rename_i here
      rw [here]
      exact markers q
    · rfl
  rw [same, same']
  exact h.delivered q r

/-- A thread goes on, without sending a marker. -/
theorem goOn (h : Accounts D s) (found : (s.processes p).threads[k]? = some t)
    (threads : next.threads = ((s.processes p).goOn k t state).threads)
    (markers : ∀ q, markersTo q next.log = markersTo q (s.processes p).log)
    (handled : ∀ q, next.log.countP (Action.handles q) + Thread.isDoneFor q t =
      (s.processes p).log.countP (Action.handles q) + Thread.isDoneFor q ⟨t.sender, state⟩)
    (sent : ∀ peer, captures next.log * (D.allPeers p).count peer + Thread.toSend peer t =
      captures (s.processes p).log * (D.allPeers p).count peer +
        Thread.toSend peer ⟨t.sender, state⟩)
    (known : captures next.log ≠ 0 → p ∈ D.hostnames) :
    Accounts D (s.setProcess p next) := by
  have moved (w : Thread Host → ℕ) :
      next.total w + w t = (s.processes p).total w + w ⟨t.sender, state⟩ := by
    have total := total_goOn state w found
    unfold Process.total at total ⊢
    rw [threads]
    exact total
  refine h.setProcess (fun q => ?_) ?_ markers (fun q => ?_) (fun peer => ?_) known
  · have total := moved (Thread.isFor q)
    exact Nat.add_right_cancel total
  · have total := moved Thread.isCaller
    exact Nat.add_right_cancel total
  · have total := moved (Thread.isDoneFor q)
    have before := h.handled p q
    have change := handled q
    omega
  · have total := moved (Thread.toSend peer)
    have before := h.sent p peer
    have change := sent peer
    rw [markers]
    omega

theorem accept (h : Accounts D s) {i : ℕ} {sender : Host}
    (waiting : (s.backlog p)[i]? = some sender) :
    Accounts D ((s.setBacklog p ((s.backlog p).eraseIdx i)).setProcess p
      { s.processes p with threads := (s.processes p).threads ++ [⟨some sender, .start⟩] }) := by
  refine h.replace rfl (fun q r => ?_) total_accept (fun q => ?_) (fun peer => ?_) (h.known p)
  · have log : (((s.setBacklog p ((s.backlog p).eraseIdx i)).setProcess p
        { s.processes p with
          threads := (s.processes p).threads ++ [⟨some sender, .start⟩] }).processes r).log =
            (s.processes r).log := by
      change (Function.update s.processes p _ r).log = _
      rw [Function.update_apply]
      split
      · rename_i here
        rw [here]
      · rfl
    rw [log, ← h.delivered q r]
    change (Function.update s.backlog p _ q).count r +
      (Function.update s.processes p _ q).total _ = _
    rw [Function.update_apply, Function.update_apply]
    split
    · rename_i here
      subst here
      rw [total_accept]
      obtain ⟨less, at_i⟩ := List.getElem?_eq_some_iff.mp waiting
      have count := (List.getElem_cons_eraseIdx_perm less).count_eq r
      rw [at_i, List.count_cons] at count
      have weight : Thread.isFor r ⟨some sender, .start⟩ = if sender == r then 1 else 0 := by
        simp [Thread.isFor]
      omega
    · rfl
  · rw [total_accept]
    exact h.handled p q
  · rw [total_accept]
    exact h.sent p peer

/-- A thread sends a marker. -/
theorem send (h : Accounts D s) {sender : Option Host} {peer : Host} {rest : List Host}
    (found : (s.processes p).threads[k]? =
      some ⟨sender, .sendMarkerMessageToPeers (peer :: rest)⟩) :
    Accounts D ((s.setBacklog peer (s.backlog peer ++ [p])).setProcess p
      (((s.processes p).note (.markerSent peer)).goOn k
        ⟨sender, .sendMarkerMessageToPeers (peer :: rest)⟩
        (.sendMarkerMessageToPeers rest))) := by
  have moved (w : Thread Host → ℕ) : (((s.processes p).note (.markerSent peer)).goOn k
      ⟨sender, .sendMarkerMessageToPeers (peer :: rest)⟩
        (.sendMarkerMessageToPeers rest)).total w +
          w ⟨sender, .sendMarkerMessageToPeers (peer :: rest)⟩ =
            (s.processes p).total w + w ⟨sender, .sendMarkerMessageToPeers rest⟩ :=
    total_goOn (.sendMarkerMessageToPeers rest) w found
  have captured : captures ((s.processes p).log ++ [Action.markerSent peer]) =
      captures (s.processes p).log := captures_concat _ _
  have markers (q : Host) : markersTo q ((s.processes p).log ++ [Action.markerSent peer]) =
      markersTo q (s.processes p).log + if peer = q then 1 else 0 := by
    rw [markersTo_concat]
    simp [Action.sends]
  refine h.replace rfl (fun q r => ?_) (Nat.add_right_cancel (moved _)) (fun q => ?_) (fun q => ?_)
    fun some => h.known p (captured ▸ some)
  · have before := h.delivered q r
    change (Function.update s.backlog peer _ q).count r +
      (Function.update s.processes p _ q).total _ =
        markersTo q (Function.update s.processes p _ r).log
    have threads : (Function.update s.processes p (((s.processes p).note (.markerSent peer)).goOn k
        ⟨sender, .sendMarkerMessageToPeers (peer :: rest)⟩ (.sendMarkerMessageToPeers rest))
          q).total (Thread.isFor r) = (s.processes q).total (Thread.isFor r) := by
      rw [Function.update_apply]
      split
      · rename_i here
        rw [here]
        exact Nat.add_right_cancel (moved _)
      · rfl
    have log : markersTo q (Function.update s.processes p
        (((s.processes p).note (.markerSent peer)).goOn k
          ⟨sender, .sendMarkerMessageToPeers (peer :: rest)⟩ (.sendMarkerMessageToPeers rest))
            r).log = markersTo q (s.processes r).log + if r = p ∧ peer = q then 1 else 0 := by
      rw [Function.update_apply]
      by_cases here : r = p
      · rw [if_pos here, here]
        exact (markers q).trans (congrArg _ (if_congr (by simp) rfl rfl))
      · rw [if_neg here, if_neg fun both => here both.1, Nat.add_zero]
    have queue : (Function.update s.backlog peer (s.backlog peer ++ [p]) q).count r =
        (s.backlog q).count r + if r = p ∧ peer = q then 1 else 0 := by
      rw [Function.update_apply]
      by_cases there : q = peer
      · rw [if_pos there, there, List.count_append, List.count_singleton]
        by_cases here : r = p
        · simp [here]
        · simp [here, Ne.symm here]
      · rw [if_neg there, if_neg fun both => there both.2.symm, Nat.add_zero]
    rw [threads, log, queue]
    omega
  · refine Eq.trans ?_ ((h.handled p q).trans (Nat.add_right_cancel (moved _)).symm)
    exact List.countP_append
  · have total := moved (Thread.toSend q)
    have before := h.sent p q
    change _ + (peer :: rest).count q = _ + rest.count q at total
    change markersTo q ((s.processes p).log ++ [_]) + _ =
      captures ((s.processes p).log ++ [_]) * _
    rw [List.count_cons] at total
    rw [markers, captured]
    have weight : (if peer == q then 1 else 0) = if peer = q then 1 else 0 := by simp
    omega

theorem step (h : Accounts D s) (sound : Sound D s) {e : Event Host Text State}
    (taken : s.step D e = some s') : Accounts D s' := by
  cases System.stepCases_of_step taken with
  | accept waiting => exact h.accept waiting
  | @initiate p k found unlocked =>
      exact h.goOn found rfl (fun _ => rfl) (fun _ => rfl) (fun _ => rfl) (h.known p)
  | @firstMarker p k sender found unlocked first =>
      exact h.goOn found rfl (fun _ => rfl) (fun _ => rfl) (fun _ => rfl) (h.known p)
  | @laterMarker p k sender found later =>
      exact h.goOn found rfl (fun _ => rfl) (fun _ => rfl) (fun _ => rfl) (h.known p)
  | @capture p k localState sender channels found =>
      refine h.goOn found rfl (fun peer => ?_) (fun q => ?_) (fun peer => ?_) fun _ => ?_
      · exact markersTo_concat peer _ _
      · exact List.countP_append
      · have captured := captures_concat (s.processes p).log (.localStateRecorded sender)
        change captures ((s.processes p).log ++ [_]) * _ + 0 = _ + (D.allPeers p).count peer
        rw [captured]
        exact Nat.succ_mul _ _
      · exact h.mem_hostnames sound (List.mem_of_getElem? found)
  | sendMarker found => exact h.send found
  | @returned p k found =>
      exact h.goOn found rfl (fun _ => rfl) (fun _ => rfl) (fun _ => rfl) (h.known p)
  | @returnedToMarker p k sender found =>
      exact h.goOn found rfl (fun _ => rfl) (fun _ => rfl) (fun _ => rfl) (h.known p)
  | @handle p k sender found unlocked =>
      have same : captures ((s.processes p).log ++ [Action.markerHandled sender]) =
          captures (s.processes p).log := captures_concat _ _
      refine h.goOn found rfl (fun peer => markersTo_concat peer _ _) (fun q => ?_)
        (fun peer => ?_) fun captured => h.known p (same ▸ captured)
      · change ((s.processes p).log ++ [_]).countP _ + 0 = _ + Thread.isFor q ⟨some sender, _⟩
        rw [List.countP_append, List.countP_singleton]
        simp [Action.handles, Thread.isFor]
      · exact congrArg (· * (D.allPeers p).count peer) same
  | @record p sender text service unlocked recorded =>
      have same : captures ((s.processes p).log ++ [Action.recordIncomingMessages sender text]) =
          captures (s.processes p).log := captures_concat _ _
      refine h.setProcess (fun _ => rfl) rfl (fun peer => markersTo_concat peer _ _)
        (fun q => ?_) (fun peer => ?_) fun captured => h.known p (same ▸ captured)
      · exact List.countP_append.trans (h.handled p q)
      · have markers : markersTo peer
            ((s.processes p).log ++ [Action.recordIncomingMessages sender text]) =
              markersTo peer (s.processes p).log := markersTo_concat peer _ _
        change markersTo peer ((s.processes p).log ++ [_]) + _ =
          captures ((s.processes p).log ++ [_]) * _
        rw [markers, same]
        exact h.sent p peer

end Accounts

/-! ## What is left to do -/

/-- Whether a thread goes on or is started; messages are recorded at any time. -/
def Event.advances : Event Host Text State → Bool
  | .recordIncomingMessages _ _ _ => false
  | _ => true

def Thread.toDo (t : Thread Host) : ℕ :=
  match t.state with
  | .start => 3
  | .takeSnapshot _ => 2
  | .sendMarkerMessageToPeers rest => 5 * rest.length + 2
  | .stopRecording => 1
  | .done => 0

namespace System

/-- The hosts that have not captured their state. -/
def uncaptured (D : Deployment Host) (s : System Host Text State) : ℕ :=
  ∑ p ∈ D.hostnames.toFinset, (1 - captures (s.processes p).log)

def threadsToDo (D : Deployment Host) (s : System Host Text State) : ℕ :=
  ∑ p ∈ D.hostnames.toFinset, (s.processes p).total Thread.toDo

def waiting (D : Deployment Host) (s : System Host Text State) : ℕ :=
  ∑ p ∈ D.hostnames.toFinset, (s.backlog p).length

/-- A marker that waits will get a thread. -/
def toDo (D : Deployment Host) (s : System Host Text State) : ℕ ×ₗ ℕ :=
  toLex (s.uncaptured D, s.threadsToDo D + 4 * s.waiting D)

end System

theorem sum_of_change {S : Finset Host} (mem : p ∈ S) {f g : Host → ℕ}
    (same : ∀ q ≠ p, g q = f q) : ∑ q ∈ S, g q + f p = ∑ q ∈ S, f q + g p := by
  have rest : ∑ q ∈ S.erase p, g q = ∑ q ∈ S.erase p, f q :=
    Finset.sum_congr rfl fun q other => same q (Finset.ne_of_mem_erase other)
  rw [← Finset.add_sum_erase S g mem, ← Finset.add_sum_erase S f mem, rest]
  omega

theorem sum_setProcess (mem : p ∈ D.hostnames) (f : Process Host Text State → ℕ) :
    ∑ q ∈ D.hostnames.toFinset, f ((s.setProcess p next).processes q) + f (s.processes p) =
      ∑ q ∈ D.hostnames.toFinset, f (s.processes q) + f next := by
  have sum := sum_of_change (List.mem_toFinset.mpr mem) (f := fun q => f (s.processes q))
    (g := fun q => f ((s.setProcess p next).processes q))
    fun q other => congrArg f (Function.update_of_ne other _ _)
  have here : (s.setProcess p next).processes p = next := Function.update_self _ _ _
  rwa [here] at sum

theorem uncaptured_setProcess (s : System Host Text State) (next : Process Host Text State)
    (mem : p ∈ D.hostnames) :
    (s.setProcess p next).uncaptured D + (1 - captures (s.processes p).log) =
      s.uncaptured D + (1 - captures next.log) :=
  sum_setProcess mem fun pr => 1 - captures pr.log

theorem threadsToDo_setProcess (s : System Host Text State) (next : Process Host Text State)
    (mem : p ∈ D.hostnames) :
    (s.setProcess p next).threadsToDo D + (s.processes p).total Thread.toDo =
      s.threadsToDo D + next.total Thread.toDo :=
  sum_setProcess mem fun pr => pr.total Thread.toDo

theorem waiting_setBacklog (s : System Host Text State) (senders : List Host)
    (mem : p ∈ D.hostnames) :
    (s.setBacklog p senders).waiting D + (s.backlog p).length =
      s.waiting D + senders.length := by
  have sum := sum_of_change (List.mem_toFinset.mpr mem) (f := fun q => (s.backlog q).length)
    (g := fun q => ((s.setBacklog p senders).backlog q).length)
    fun q other => congrArg List.length (Function.update_of_ne other _ _)
  have here : (s.setBacklog p senders).backlog p = senders := Function.update_self _ _ _
  rwa [here] at sum

/-- A thread captures the local state or has less to do. -/
theorem Process.step_toDo {pr : Process Host Text State} {allPeers : List Host}
    {localState : State} (found : pr.threads[k]? = some t)
    (stepped : pr.step allPeers k t localState = some next) :
    captures next.log = captures pr.log ∧ next.total Thread.toDo < pr.total Thread.toDo ∨
      captures next.log = captures pr.log + 1 := by
  have less {data : Process Host Text State} {state : ThreadState Host}
      (threads : data.threads = pr.threads)
      (fewer : Thread.toDo ⟨t.sender, state⟩ < Thread.toDo t) :
      (data.goOn k t state).total Thread.toDo < pr.total Thread.toDo := by
    have there : data.threads[k]? = some t := threads ▸ found
    have total := total_goOn state Thread.toDo there
    have same : data.total Thread.toDo = pr.total Thread.toDo := by
      unfold Process.total
      rw [threads]
    omega
  obtain ⟨sender, state⟩ := t
  unfold Process.step at stepped
  dsimp only at stepped
  split at stepped
  · split at stepped
    · cases stepped
    · split at stepped
      · cases stepped
        exact Or.inl ⟨rfl, less rfl (Nat.lt_succ_self 2)⟩
      · split at stepped
        · cases stepped
          exact Or.inl ⟨rfl, less rfl (by decide : 1 < 3)⟩
        · cases stepped
          exact Or.inl ⟨rfl, less rfl (Nat.lt_succ_self 2)⟩
  · split at stepped
    · cases stepped
    · cases stepped
      exact Or.inr (captures_concat _ _)
  · cases stepped
  · split at stepped
    · cases stepped
      exact Or.inl ⟨rfl, less rfl Nat.zero_lt_two⟩
    · cases stepped
      exact Or.inl ⟨rfl, less rfl Nat.one_lt_two⟩
  · split at stepped
    · cases stepped
    · split at stepped
      · cases stepped
      · cases stepped
        exact Or.inl ⟨captures_concat _ _, less rfl Nat.zero_lt_one⟩
  · cases stepped

namespace Accounts

/-- A marker only waits at a host of the deployment. -/
theorem mem_hostnames_of_waiting (h : Accounts D s) (sound : Sound D s) {q : Host}
    (mem : q ∈ s.backlog p) : p ∈ D.hostnames := by
  have one := List.count_pos_iff.mpr mem
  have delivered := h.delivered p q
  have bound := (sound.announces q).sent p
  exact (Deployment.mem_allPeers.mp
    (List.count_pos_iff.mp (by omega : 0 < (D.allPeers q).count p))).1

/-- Every step of a thread brings the snapshot nearer to its end. -/
theorem lowers (h : Accounts D s) (sound : Sound D s) (sound' : Sound D s')
    {e : Event Host Text State} (taken : s.step D e = some s') (advances : e.advances = true) :
    s'.toDo D < s.toDo D := by
  unfold System.step at taken
  cases e with
  | recordIncomingMessages p sender text => cases advances
  | accept p i =>
      dsimp only at taken
      split at taken
      · rename_i sender waits
        split at taken
        · cases taken
          have mem := h.mem_hostnames_of_waiting sound (List.mem_of_getElem? waits)
          have length := List.length_eraseIdx_of_lt (List.getElem?_eq_some_iff.mp waits).1
          have queue := waiting_setBacklog s ((s.backlog p).eraseIdx i) mem
          have captured := uncaptured_setProcess (s.setBacklog p ((s.backlog p).eraseIdx i))
            ⟨(s.processes p).service, (s.processes p).threads ++ [⟨some sender, .start⟩],
              (s.processes p).log⟩ mem
          have threads := threadsToDo_setProcess (s.setBacklog p ((s.backlog p).eraseIdx i))
            ⟨(s.processes p).service, (s.processes p).threads ++ [⟨some sender, .start⟩],
              (s.processes p).log⟩ mem
          rw [System.toDo, System.toDo, Prod.Lex.toLex_lt_toLex]
          refine Or.inr ⟨Nat.add_right_cancel captured, ?_⟩
          rw [total_accept] at threads
          change _ + 4 * System.waiting D (s.setBacklog p _) < _
          change _ + (s.processes p).total Thread.toDo =
            s.threadsToDo D + ((s.processes p).total Thread.toDo + 3) at threads
          have some := (List.getElem?_eq_some_iff.mp waits).1
          dsimp only
          omega
        · cases taken
      · cases taken
  | threadStep p k localState =>
      dsimp only at taken
      split at taken
      · rename_i t found
        obtain ⟨next, stepped, same⟩ := Option.map_eq_some_iff.mp taken
        subst same
        have mem := h.mem_hostnames sound (List.mem_of_getElem? found)
        have captured := uncaptured_setProcess s next mem
        have threads := threadsToDo_setProcess s next mem
        rw [System.toDo, System.toDo, Prod.Lex.toLex_lt_toLex]
        change _ ∨ _ ∧ System.threadsToDo D _ + 4 * s.waiting D < _
        rcases Process.step_toDo found stepped with ⟨same, less⟩ | more
        · rw [same] at captured
          exact Or.inr ⟨Nat.add_right_cancel captured, by dsimp only; omega⟩
        · have once := (sound'.turns p).atMostOnce
          have here : (s.setProcess p next).processes p = next := Function.update_self _ _ _
          rw [here] at once
          exact Or.inl (by dsimp only; omega)
      · cases taken
  | sendMarker p k =>
      dsimp only at taken
      split at taken
      · rename_i sender peer rest found
        cases taken
        have mem := h.mem_hostnames sound (List.mem_of_getElem? found)
        have toSend := (sound.announces p).sending found peer
        have peers := (Deployment.mem_allPeers.mp (List.count_pos_iff.mp
          (by rw [List.count_cons_self] at toSend; omega : 0 < (D.allPeers p).count peer))).1
        have there : ((s.processes p).note (.markerSent peer)).threads[k]? =
            some ⟨sender, .sendMarkerMessageToPeers (peer :: rest)⟩ := found
        have total := total_goOn (.sendMarkerMessageToPeers rest) Thread.toDo there
        have queue := waiting_setBacklog s (s.backlog peer ++ [p]) peers
        have captured := uncaptured_setProcess (s.setBacklog peer (s.backlog peer ++ [p]))
          (((s.processes p).note (.markerSent peer)).goOn k
            ⟨sender, .sendMarkerMessageToPeers (peer :: rest)⟩ (.sendMarkerMessageToPeers rest)) mem
        have threads := threadsToDo_setProcess (s.setBacklog peer (s.backlog peer ++ [p]))
          (((s.processes p).note (.markerSent peer)).goOn k
            ⟨sender, .sendMarkerMessageToPeers (peer :: rest)⟩ (.sendMarkerMessageToPeers rest)) mem
        have same : captures ((s.processes p).log ++ [Action.markerSent peer]) =
            captures (s.processes p).log := captures_concat _ _
        change _ + (1 - captures (s.processes p).log) = s.uncaptured D +
          (1 - captures ((s.processes p).log ++ [Action.markerSent peer])) at captured
        rw [same] at captured
        rw [System.toDo, System.toDo, Prod.Lex.toLex_lt_toLex]
        refine Or.inr ⟨Nat.add_right_cancel captured, ?_⟩
        change _ + 4 * System.waiting D (s.setBacklog peer _) < _
        change _ + (5 * (peer :: rest).length + 2) =
          (s.processes p).total Thread.toDo + (5 * rest.length + 2) at total
        change _ + (s.processes p).total Thread.toDo = s.threadsToDo D + _ at threads
        rw [List.length_append, List.length_singleton] at queue
        rw [List.length_cons] at total
        dsimp only
        omega
      · cases taken

end Accounts

/-! ## When no thread can go on -/

/-- The snapshot of `p` is complete: `start` has accepted a connection of each peer, and all of its
threads can be joined. -/
structure System.Completed (D : Deployment Host) (s : System Host Text State) (p : Host) :
    Prop where
  captured : captures (s.processes p).log = 1
  sent : ∀ peer ∈ D.allPeers p, markersTo peer (s.processes p).log = 1
  handled : ∀ c ∈ D.allPeers p, (s.processes p).log.countP (Action.handles c) = 1
  closed : (s.processes p).service.channelsToBeRecorded = ∅
  accepted : ((s.processes p).threads.filter fun t => t.sender.isSome).length =
    (D.allPeers p).length
  joined : ∀ t ∈ (s.processes p).threads, t.state = .done
  backlog : s.backlog p = []

/-- The senders of the markers that have a thread. -/
theorem count_senders {pr : Process Host Text State} (q : Host) :
    (pr.threads.filterMap Thread.sender).count q = pr.total (Thread.isFor q) := by
  unfold Process.total
  induction pr.threads with
  | nil => rfl
  | cons t threads ih =>
      obtain ⟨sender, state⟩ := t
      cases sender with
      | none =>
          rw [List.filterMap_cons_none rfl, List.map_cons, List.sum_cons, ih]
          exact (Nat.zero_add _).symm
      | some sender =>
          rw [List.filterMap_cons_some 
            (show Thread.sender ⟨some sender, state⟩ = some sender from rfl),
            List.map_cons, List.sum_cons, List.count_cons, ih]
          simp [Thread.isFor, Nat.add_comm]

omit [DecidableEq Host] in
theorem length_senders {threads : List (Thread Host)} :
    (threads.filterMap Thread.sender).length =
      (threads.filter fun t => t.sender.isSome).length := by
  induction threads with
  | nil => rfl
  | cons t threads ih =>
      obtain ⟨sender, state⟩ := t
      cases sender with
      | none =>
          rw [List.filterMap_cons_none rfl, List.filter_cons_of_neg Bool.false_ne_true]
          exact ih
      | some sender =>
          rw [List.filterMap_cons_some 
            (show Thread.sender ⟨some sender, state⟩ = some sender from rfl),
            List.filter_cons_of_pos rfl, List.length_cons,
            List.length_cons, ih]

/-- A process gets no more markers than it has peers. -/
theorem Accounts.length_le (h : Accounts D s) (sound : Sound D s) (p : Host) :
    (s.backlog p).length + ((s.processes p).threads.filter fun t => t.sender.isSome).length ≤
      (D.allPeers p).length := by
  have count (q : Host) : (s.backlog p ++ (s.processes p).threads.filterMap Thread.sender).count q =
      markersTo p (s.processes q).log := by
    rw [List.count_append, count_senders]
    exact h.delivered p q
  have bound (q : Host) : markersTo p (s.processes q).log ≤ (D.allPeers q).count p :=
    (sound.announces q).sent p
  have nodup : (s.backlog p ++ (s.processes p).threads.filterMap Thread.sender).Nodup :=
    List.nodup_iff_count_le_one.mpr fun q => by
      rw [count]
      exact (bound q).trans (D.count_allPeers_le q p)
  have subset : s.backlog p ++ (s.processes p).threads.filterMap Thread.sender ⊆
      D.allPeers p := by
    intro q mem
    have one := List.count_pos_iff.mpr mem
    rw [count] at one
    have less := bound q
    obtain ⟨_, apart⟩ := Deployment.mem_allPeers.mp
      (List.count_pos_iff.mp (by omega : 0 < (D.allPeers q).count p))
    refine Deployment.mem_allPeers.mpr ⟨h.known q fun fresh => ?_, apart.symm⟩
    rw [(sound.announces q).notYet fresh] at one
    exact Nat.lt_irrefl 0 one
  rw [← length_senders, ← List.length_append]
  exact (nodup.subperm subset).length_le

/-- No marker is left in a backlog. -/
theorem Accounts.backlog_of_stuck (h : Accounts D s) (sound : Sound D s)
    (stuck : ∀ e : Event Host Text State, e.advances = true → s.step D e = none) (p : Host) :
    s.backlog p = [] := by
  by_contra waits
  obtain ⟨sender, rest, queue⟩ := List.exists_cons_of_ne_nil waits
  have less := h.length_le sound p
  have blocked := stuck (.accept p 0) rfl
  unfold System.step at blocked
  dsimp only at blocked
  rw [queue] at blocked less
  rw [List.length_cons] at less
  dsimp only [List.getElem?_cons_zero] at blocked
  rw [if_pos (by omega)] at blocked
  cases blocked

theorem Accounts.isFor_of_stuck (h : Accounts D s) (sound : Sound D s)
    (stuck : ∀ e : Event Host Text State, e.advances = true → s.step D e = none) (p q : Host) :
    (s.processes p).total (Thread.isFor q) = markersTo p (s.processes q).log := by
  have delivered := h.delivered p q
  rw [h.backlog_of_stuck sound stuck p] at delivered
  exact (Nat.zero_add _).symm.trans delivered

/-- A process that has handled a marker of every peer records nothing any more. -/
theorem Records.closed {pr : Process Host Text State} (h : Records D p pr)
    (captured : captures pr.log ≠ 0)
    (handled : ∀ c ∈ D.allPeers p, pr.log.countP (Action.handles c) ≠ 0) :
    pr.service.channelsToBeRecorded = ∅ := by
  obtain ⟨a, mem, takes⟩ := exists_capturesState captured
  cases a with
  | localStateRecorded first =>
      refine Finset.eq_empty_of_forall_notMem fun c inside => ?_
      obtain ⟨toRecord, notYet⟩ := (h.channels first mem c).mp inside
      refine handled c (Deployment.mem_channelsToRecord.mp toRecord).1 ?_
      exact List.countP_eq_zero.mpr fun a there => Bool.eq_false_iff.mp (notYet a there)
  | _ => cases takes

section Stuck

variable [Inhabited State]

theorem process_stuck (stuck : ∀ e : Event Host Text State, e.advances = true → s.step D e = none)
    (found : (s.processes p).threads[k]? = some t) :
    (s.processes p).step (D.allPeers p) k t default = none := by
  have blocked := stuck (.threadStep p k default) rfl
  unfold System.step at blocked
  dsimp only at blocked
  rw [found] at blocked
  exact Option.map_eq_none_iff.mp blocked

/-- **No deadlock.**  Where no thread can go on, all are done. -/
theorem done_of_stuck (sound : Sound D s)
    (stuck : ∀ e : Event Host Text State, e.advances = true → s.step D e = none) :
    ∀ t ∈ (s.processes p).threads, t.state = .done := by
  have sends {k : ℕ} {sender : Option Host} {rest : List Host} :
      (s.processes p).threads[k]? ≠ some ⟨sender, .sendMarkerMessageToPeers rest⟩ := by
    intro found
    cases rest with
    | nil =>
        have blocked := process_stuck stuck found
        cases sender <;> cases blocked
    | cons peer rest =>
        have blocked := stuck (.sendMarker p k) rfl
        unfold System.step at blocked
        dsimp only at blocked
        rw [found] at blocked
        cases blocked
  have channels : (s.processes p).channelsLocked = false := by
    unfold Process.channelsLocked
    rw [List.any_eq_false]
    intro t mem
    obtain ⟨k, found⟩ := List.getElem?_of_mem mem
    obtain ⟨sender, state⟩ := t
    cases state with
    | sendMarkerMessageToPeers rest => exact absurd found sends
    | _ => exact Bool.false_ne_true
  have takes {k : ℕ} {sender : Option Host} {channels' : List Host} :
      (s.processes p).threads[k]? ≠ some ⟨sender, .takeSnapshot channels'⟩ := by
    intro found
    have blocked := process_stuck stuck found
    unfold Process.step at blocked
    dsimp only at blocked
    rw [channels] at blocked
    cases blocked
  have initiated : (s.processes p).initiatedLocked = false := by
    unfold Process.initiatedLocked
    rw [List.any_eq_false]
    intro t mem
    obtain ⟨k, found⟩ := List.getElem?_of_mem mem
    obtain ⟨sender, state⟩ := t
    cases state with
    | sendMarkerMessageToPeers rest => exact absurd found sends
    | takeSnapshot channels' => exact absurd found takes
    | _ => simp [Thread.takesSnapshot]
  intro t mem
  obtain ⟨k, found⟩ := List.getElem?_of_mem mem
  have blocked := process_stuck stuck found
  obtain ⟨sender, state⟩ := t
  cases state with
  | sendMarkerMessageToPeers rest => exact absurd found sends
  | takeSnapshot channels' => exact absurd found takes
  | done => rfl
  | start =>
      unfold Process.step at blocked
      dsimp only at blocked
      rw [initiated] at blocked
      cases sender with
      | none => cases blocked
      | some sender =>
          cases flag : (s.processes p).service.snapshotInitiated with
          | true =>
              rw [flag] at blocked
              cases blocked
          | false =>
              rw [flag] at blocked
              cases blocked
  | stopRecording =>
      unfold Process.step at blocked
      dsimp only at blocked
      rw [channels] at blocked
      cases sender with
      | none => exact ((sound.turns p).knows found).elim
      | some sender => cases blocked

/-- Who has captured its state has sent a marker to every peer. -/
theorem Accounts.sent_of_stuck (h : Accounts D s) (sound : Sound D s)
    (stuck : ∀ e : Event Host Text State, e.advances = true → s.step D e = none)
    (captured : captures (s.processes p).log = 1) {peer : Host} (mem : peer ∈ D.allPeers p) :
    markersTo peer (s.processes p).log = 1 := by
  have sent := h.sent p peer
  have nothing : (s.processes p).total (Thread.toSend peer) = 0 :=
    total_eq_zero fun t there => by
      unfold Thread.toSend
      rw [done_of_stuck sound stuck t there]
  rw [nothing, captured, Nat.one_mul, Nat.add_zero] at sent
  rw [sent]
  exact List.count_eq_one_of_mem (D.nodup.filter _) mem

/-- Everybody has captured its state. -/
theorem Accounts.captured_of_stuck (h : Accounts D s) (sound : Sound D s)
    (stuck : ∀ e : Event Host Text State, e.advances = true → s.step D e = none)
    (known : p ∈ D.hostnames) : captures (s.processes p).log = 1 := by
  have initiator : captures (s.processes D.initiator).log = 1 := by
    obtain ⟨t, mem, calls⟩ := exists_of_total (h.caller ▸ Nat.one_ne_zero)
    obtain ⟨k, found⟩ := List.getElem?_of_mem mem
    have knows := (sound.turns D.initiator).knows found
    have done := done_of_stuck sound stuck t mem
    obtain ⟨sender, state⟩ := t
    dsimp only at done
    subst done
    cases sender with
    | none => exact knows.2.1
    | some sender => exact absurd rfl calls
  by_cases here : p = D.initiator
  · rw [here]
    exact initiator
  · have marker := h.isFor_of_stuck sound stuck p D.initiator
    rw [h.sent_of_stuck sound stuck initiator (Deployment.mem_allPeers.mpr ⟨known, here⟩)] at marker
    obtain ⟨t, mem, isFor⟩ := exists_of_total (marker ▸ Nat.one_ne_zero)
    obtain ⟨k, found⟩ := List.getElem?_of_mem mem
    have knows := (sound.turns p).knows found
    have done := done_of_stuck sound stuck t mem
    obtain ⟨sender, state⟩ := t
    dsimp only at done
    subst done
    cases sender with
    | none => exact knows.2.1
    | some sender => exact knows.1

theorem Accounts.completed_of_stuck (h : Accounts D s) (sound : Sound D s)
    (stuck : ∀ e : Event Host Text State, e.advances = true → s.step D e = none)
    (known : p ∈ D.hostnames) : s.Completed D p := by
  have captured := h.captured_of_stuck sound stuck known
  have marker {c : Host} (mem : c ∈ D.allPeers p) : (s.processes p).total (Thread.isFor c) = 1 := by
    obtain ⟨known', apart⟩ := Deployment.mem_allPeers.mp mem
    rw [h.isFor_of_stuck sound stuck]
    exact h.sent_of_stuck sound stuck (h.captured_of_stuck sound stuck known')
      (Deployment.mem_allPeers.mpr ⟨known, apart.symm⟩)
  have handled {c : Host} (mem : c ∈ D.allPeers p) :
      (s.processes p).log.countP (Action.handles c) = 1 := by
    rw [h.handled, ← marker mem]
    unfold Process.total
    refine congrArg List.sum (List.map_congr_left fun t there => ?_)
    unfold Thread.isDoneFor
    rw [done_of_stuck sound stuck t there]
  refine ⟨captured, fun peer => h.sent_of_stuck sound stuck captured, fun c => handled, ?_,
    Nat.le_antisymm ?_ ?_, done_of_stuck sound stuck, h.backlog_of_stuck sound stuck p⟩
  · exact (sound.records p).closed (captured ▸ Nat.one_ne_zero) fun c mem =>
      handled mem ▸ Nat.one_ne_zero
  · exact (Nat.le_add_left _ _).trans (h.length_le sound p)
  · rw [← length_senders]
    refine ((D.nodup.filter _).subperm fun c mem => ?_).length_le
    refine List.count_pos_iff.mp ?_
    rw [count_senders, marker mem]
    exact Nat.zero_lt_one

end Stuck

/-! ## Every snapshot is completed -/

theorem accounts_of_reachable (reach : Reach (System.step D) Always (System.initial D) s) :
    Accounts D s :=
  reach.invariant_with (fun _ before => sound_of_reachable before) (.initial D)
    fun _ _ _ sound h _ taken => h.step sound taken

/-- What a message that is recorded leaves as it is. -/
theorem System.step_record {e : Event Host Text State} (taken : s.step D e = some s')
    (records : e.advances = false) :
    s'.backlog = s.backlog ∧ ∀ q, (s'.processes q).threads = (s.processes q).threads ∧
      captures (s'.processes q).log = captures (s.processes q).log := by
  unfold System.step at taken
  cases e with
  | recordIncomingMessages p sender text =>
      dsimp only at taken
      split at taken
      · cases taken
      · obtain ⟨service, _, same⟩ := Option.map_eq_some_iff.mp taken
        subst same
        refine ⟨rfl, fun q => ?_⟩
        change (Function.update s.processes p _ q).threads = _ ∧
          captures (Function.update s.processes p _ q).log = _
        rw [Function.update_apply]
        split
        · rename_i here
          subst here
          exact ⟨rfl, captures_concat _ _⟩
        · exact ⟨rfl, rfl⟩
  | _ => cases records

theorem System.toDo_record {e : Event Host Text State} (taken : s.step D e = some s')
    (records : e.advances = false) : s'.toDo D = s.toDo D := by
  obtain ⟨backlog, same⟩ := System.step_record taken records
  have captured : s'.uncaptured D = s.uncaptured D :=
    Finset.sum_congr rfl fun q _ => by rw [(same q).2]
  have threads : s'.threadsToDo D = s.threadsToDo D :=
    Finset.sum_congr rfl fun q _ => by unfold Process.total; rw [(same q).1]
  have waiting : s'.waiting D = s.waiting D := by
    unfold System.waiting
    rw [backlog]
  unfold System.toDo
  rw [captured, threads, waiting]

/-- Where nothing is to be recorded, nothing is. -/
theorem Sound.recorded_of_closed (sound : Sound D s) {e : Event Host Text State}
    (taken : s.step D e = some s') (records : e.advances = false)
    (closed : (s.processes p).service.channelsToBeRecorded = ∅) (c : Host) :
    (s'.processes p).service.recorded c = (s.processes p).service.recorded c := by
  unfold System.step at taken
  cases e with
  | recordIncomingMessages q sender text =>
      dsimp only at taken
      split at taken
      · cases taken
      · obtain ⟨service, called, same⟩ := Option.map_eq_some_iff.mp taken
        subst same
        change (Function.update s.processes q _ p).service.recorded c = _
        rw [Function.update_apply]
        split
        · rename_i here
          subst here
          obtain ⟨_, called', _, _, _, recorded⟩ :=
            (sound.records p).mapped.recordIncomingMessages sender text
          rw [called] at called'
          cases called'
          refine (recorded c).trans (if_neg fun both => ?_)
          rw [closed] at both
          exact Finset.notMem_empty c both.2
        · rfl
  | _ => cases records

/-- **Every snapshot is completed.**  As long as some thread goes on whenever one can, there is a
time from which on every process has captured its state, has sent a marker to each peer and handled
one of each, and records nothing any more. -/
theorem snapshot_completes [Inhabited State]
    (r : Run (System.step D) Always (System.initial D : System Host Text State))
    (goesOn : ∀ n e, e.advances = true → (r.state n).step D e ≠ none →
      ∃ m e', n ≤ m ∧ r.event m = some e' ∧ e'.advances = true) :
    ∃ n, ∀ m, n ≤ m → ∀ p ∈ D.hostnames, (r.state m).Completed D p ∧
      ∀ c, ((r.state m).processes p).service.recorded c =
        ((r.state n).processes p).service.recorded c := by
  have sound (n : ℕ) : Sound D (r.state n) := sound_of_reachable (r.reach n)
  have accounts (n : ℕ) : Accounts D (r.state n) := accounts_of_reachable (r.reach n)
  obtain ⟨n, stuck⟩ := Run.ends (System.toDo D) (fun e => e.advances = true)
    (fun n e event advances =>
      (accounts n).lowers (sound n) (sound (n + 1)) (r.happens n e event).2 advances)
    (fun n e event records => le_of_eq
      (System.toDo_record (r.happens n e event).2 (Bool.eq_false_of_not_eq_true records)))
    fun n e advances _ can => goesOn n e advances can
  have completed (m : ℕ) (later : n ≤ m) {p : Host} (known : p ∈ D.hostnames) :
      (r.state m).Completed D p :=
    (accounts m).completed_of_stuck (sound m) (fun e advances => stuck m later e advances trivial)
      known
  refine ⟨n, fun m later p known => ⟨completed m later known, fun c => ?_⟩⟩
  induction m, later using Nat.le_induction with
  | base => rfl
  | succ m later ih =>
      cases event : r.event m with
      | none =>
          rw [r.idle m event]
          exact ih
      | some e =>
          have taken := (r.happens m e event).2
          have records : e.advances = false := by
            refine Bool.eq_false_of_not_eq_true fun advances => ?_
            rw [stuck m later e advances trivial] at taken
            cases taken
          exact ((sound m).recorded_of_closed taken records
            (completed m later known).closed c).trans ih

/-! The snapshot of three hosts, to its end. -/

def lastMarkers : List (Event ℕ ℕ Unit) :=
  [.threadStep 2 0 (), .threadStep 2 0 (), .accept 2 0, .threadStep 2 1 (), .accept 0 0,
    .threadStep 2 1 (), .threadStep 0 1 (), .accept 0 0, .threadStep 0 2 (), .threadStep 0 1 (),
    .recordIncomingMessages 2 1 11, .threadStep 0 2 ()]

def completingRun : List (Event ℕ ℕ Unit) :=
  initiating ++ firstMarkerOf1 ++ secondMarkerOf1 ++ lastMarkers

theorem completingRun_through :
    (replay (System.step threeHosts) (System.initial threeHosts) completingRun).isSome = true := by
  decide +kernel

def completeSnapshot : System ℕ ℕ Unit :=
  (replay (System.step threeHosts) (System.initial threeHosts) completingRun).get
    completingRun_through

theorem completeSnapshot_done : ∀ p ∈ threeHosts.hostnames,
    (∀ t ∈ (completeSnapshot.processes p).threads, t.state = .done) ∧
      completeSnapshot.backlog p = [] := by
  decide +kernel

/-- A thread that is done stays so. -/
theorem stuck_of_done (done : ∀ p, ∀ t ∈ (s.processes p).threads, t.state = .done)
    (backlog : ∀ p, s.backlog p = []) {e : Event Host Text State} (advances : e.advances = true) :
    s.step D e = none := by
  unfold System.step
  cases e with
  | recordIncomingMessages p sender text => cases advances
  | accept p i =>
      dsimp only
      rw [backlog p]
      rfl
  | threadStep p k localState =>
      dsimp only
      split
      · rename_i t found
        have ended := done p t (List.mem_of_getElem? found)
        unfold Process.step
        rw [ended]
        rfl
      · rfl
  | sendMarker p k =>
      dsimp only
      split
      · rename_i found
        cases done p _ (List.mem_of_getElem? found)
      · rfl

def snapshotOfThree : Run (System.step threeHosts) Always
    (System.initial threeHosts : System ℕ ℕ Unit) :=
  .ofReplay completingRun (allowedAlong_always _ _) completingRun_through

theorem snapshot_completes_three :
    ∃ n, ∀ m, n ≤ m → ∀ p ∈ threeHosts.hostnames, (snapshotOfThree.state m).Completed threeHosts p ∧
      ∀ c, ((snapshotOfThree.state m).processes p).service.recorded c =
        ((snapshotOfThree.state n).processes p).service.recorded c := by
  have reach : Reach (System.step threeHosts) Always (System.initial threeHosts)
      completeSnapshot := .of_isSome (allowedAlong_always _ _) completingRun_through
  have accounts := accounts_of_reachable reach
  have sound := sound_of_reachable reach
  refine snapshot_completes snapshotOfThree fun n e advances can => ?_
  by_cases during : n < completingRun.length
  · exact ⟨completingRun.length - 1, .threadStep 0 2 (), Nat.le_sub_one_of_lt during, rfl, rfl⟩
  · have last : snapshotOfThree.state n = completeSnapshot :=
      stateAt_last (Option.some_get completingRun_through).symm (Nat.le_of_not_lt during)
    rw [last] at can
    refine absurd (stuck_of_done (fun p t mem => ?_) (fun p => ?_) advances) can
    · exact (completeSnapshot_done p (accounts.mem_hostnames sound mem)).1 t mem
    · by_cases known : p ∈ threeHosts.hostnames
      · exact (completeSnapshot_done p known).2
      · refine List.eq_nil_iff_forall_not_mem.mpr fun q mem => ?_
        exact known (accounts.mem_hostnames_of_waiting sound mem)

end GroupComm.Lab1.Snapshot
