import GroupComm.Lab1.Markers

/-!
# One snapshot at each process

Two mutexes and a flag keep the threads of a process apart.  `Turns` says what a thread knows of
the flag and of the log from the place where it stands, and that at most one thread handles the
first marker.

The initiator sets the flag before it captures its state, every other process after it.  What
keeps the threads of the markers out of that gap is the protocol itself: no marker is under way
before the initiator has captured its state (`Asked`).
-/

namespace GroupComm.Lab1.Snapshot

open Transition

variable {Host Text State : Type}

def Action.capturesState : Action Host Text → Bool
  | .localStateRecorded _ => true
  | _ => false

/-- How often the local state has been captured. -/
def captures (log : List (Action Host Text)) : ℕ :=
  log.countP Action.capturesState

theorem captures_concat (log : List (Action Host Text)) (action : Action Host Text) :
    captures (log ++ [action]) = captures log + if action.capturesState then 1 else 0 := by
  rw [captures, List.countP_append, List.countP_singleton, captures]

theorem captures_eq_zero {log : List (Action Host Text)} :
    captures log = 0 ↔ ∀ a ∈ log, a.capturesState = false := by
  rw [captures, List.countP_eq_zero]
  exact forall₂_congr fun a _ => Bool.not_eq_true _ ▸ Iff.rfl

theorem exists_capturesState {log : List (Action Host Text)} (captured : captures log ≠ 0) :
    ∃ a ∈ log, a.capturesState = true :=
  List.countP_pos_iff.mp (Nat.pos_of_ne_zero captured)

theorem mem_captured {log : List (Action Host Text)} {sender : Option Host}
    (mem : .localStateRecorded sender ∈ log) : captures log ≠ 0 := by
  intro fresh
  have none := captures_eq_zero.mp fresh _ mem
  cases none

section Threads

variable {pr : Process Host Text State} {k : ℕ} {t : Thread Host} {state : ThreadState Host}

/-- The threads after one of them has gone on. -/
theorem threads_goOn (found : pr.threads[k]? = some t) {i : ℕ} {u : Thread Host}
    (there : (pr.goOn k t state).threads[i]? = some u) :
    i = k ∧ u = ⟨t.sender, state⟩ ∨ i ≠ k ∧ pr.threads[i]? = some u := by
  change (pr.threads.set k _)[i]? = some u at there
  by_cases same : i = k
  · subst same
    have less := (List.getElem?_eq_some_iff.mp found).1
    rw [List.getElem?_set_self less] at there
    exact Or.inl ⟨rfl, (Option.some.inj there).symm⟩
  · rw [List.getElem?_set_ne (Ne.symm same)] at there
    exact Or.inr ⟨same, there⟩

theorem threads_goOn_self (found : pr.threads[k]? = some t) :
    (pr.goOn k t state).threads[k]? = some ⟨t.sender, state⟩ := by
  have less := (List.getElem?_eq_some_iff.mp found).1
  exact List.getElem?_set_self less

end Threads

variable [DecidableEq Host]

/-- The channels that the thread of a marker, or of the call, records. -/
def Deployment.channelsToRecord (D : Deployment Host) (p : Host) (sender : Option Host) :
    List Host :=
  (D.allPeers p).filter fun peer => some peer ≠ sender

/-- What a thread that stands there knows of the flag and of the number of captures. -/
def Thread.Knows (D : Deployment Host) (p : Host) (flag : Bool) (captured : ℕ) :
    Thread Host → Prop
  | ⟨none, .start⟩ => p = D.initiator ∧ captured = 0
  | ⟨none, .takeSnapshot channels⟩ =>
      p = D.initiator ∧ captured = 0 ∧ flag = true ∧ channels = D.channelsToRecord p none
  | ⟨none, .sendMarkerMessageToPeers _⟩ | ⟨none, .done⟩ =>
      p = D.initiator ∧ captured = 1 ∧ flag = true
  | ⟨none, .stopRecording⟩ => False
  | ⟨some _, .start⟩ => p = D.initiator → captured = 1
  | ⟨some sender, .takeSnapshot channels⟩ =>
      p ≠ D.initiator ∧ captured = 0 ∧ flag = false ∧
        channels = D.channelsToRecord p (some sender)
  | ⟨some _, .sendMarkerMessageToPeers _⟩ => captured = 1 ∧ flag = false
  | ⟨some _, .stopRecording⟩ | ⟨some _, .done⟩ => captured = 1 ∧ flag = true

structure Turns (D : Deployment Host) (p : Host) (pr : Process Host Text State) : Prop where
  knows : ∀ {i : ℕ} {t : Thread Host}, pr.threads[i]? = some t →
    t.Knows D p pr.service.snapshotInitiated (captures pr.log)
  caller : ∀ {i j : ℕ} {t u : Thread Host}, pr.threads[i]? = some t → pr.threads[j]? = some u →
    t.sender = none → u.sender = none → i = j
  firstMarker : ∀ {i j : ℕ} {t u : Thread Host}, pr.threads[i]? = some t → pr.threads[j]? = some u →
    t.sender.isSome = true → t.takesSnapshot = true →
      u.sender.isSome = true → u.takesSnapshot = true → i = j
  /-- A process that has captured its state, and is not still busy with the first marker, has
  set the flag. -/
  taken : captures pr.log = 1 → pr.service.snapshotInitiated = true ∨
    ∃ (i : ℕ) (sender : Host) (rest : List Host),
      pr.threads[i]? = some ⟨some sender, .sendMarkerMessageToPeers rest⟩
  flagged : pr.service.snapshotInitiated = true → captures pr.log = 1 ∨ p = D.initiator
  atMostOnce : captures pr.log ≤ 1

variable {D : Deployment Host} {p : Host} {pr next : Process Host Text State} {k : ℕ}
  {t : Thread Host} {state : ThreadState Host}

/-- The `k`-th thread goes on, and with it the flag and the log may change.  What the other
threads know stays true. -/
theorem Turns.goOn (h : Turns D p pr) (found : pr.threads[k]? = some t)
    (threads : next.threads = (pr.goOn k t state).threads)
    (self : Thread.Knows D p next.service.snapshotInitiated (captures next.log)
      ⟨t.sender, state⟩)
    (others : ∀ i u, i ≠ k → pr.threads[i]? = some u →
      u.Knows D p next.service.snapshotInitiated (captures next.log))
    (alone : t.sender.isSome = true → Thread.takesSnapshot ⟨t.sender, state⟩ = true →
      t.takesSnapshot = true ∨ pr.initiatedLocked = false)
    (taken : captures next.log = 1 → next.service.snapshotInitiated = true ∨
      ∃ (i : ℕ) (sender : Host) (rest : List Host),
        next.threads[i]? = some ⟨some sender, .sendMarkerMessageToPeers rest⟩)
    (flagged : next.service.snapshotInitiated = true →
      captures next.log = 1 ∨ p = D.initiator)
    (atMostOnce : captures next.log ≤ 1) : Turns D p next := by
  -- while the mutex is free, no thread of a marker takes the snapshot
  have free : pr.initiatedLocked = false → ∀ {i : ℕ} {u : Thread Host}, pr.threads[i]? = some u →
      u.sender.isSome = true → u.takesSnapshot = true → False := by
    intro unlocked i u there marker takes
    have held : pr.initiatedLocked = true := by
      apply List.any_eq_true.mpr
      refine ⟨u, List.mem_of_getElem? there, ?_⟩
      rw [marker, takes]
      rfl
    rw [unlocked] at held
    cases held
  have only : ∀ {i : ℕ} {u : Thread Host}, i ≠ k → pr.threads[i]? = some u → u.sender.isSome = true →
      u.takesSnapshot = true → t.sender.isSome = true →
        Thread.takesSnapshot ⟨t.sender, state⟩ = true → False := by
    intro i u other there marker takes tMarker tTakes
    rcases alone tMarker tTakes with before | unlocked
    · exact other (h.firstMarker there found marker takes tMarker before)
    · exact free unlocked there marker takes
  refine ⟨?_, ?_, ?_, taken, flagged, atMostOnce⟩
  · intro i u there
    rw [threads] at there
    rcases threads_goOn found there with ⟨_, same⟩ | ⟨other, there⟩
    · rw [same]
      exact self
    · exact others i u other there
  · intro i j u v there there' callerU callerV
    rw [threads] at there there'
    rcases threads_goOn found there with ⟨same, u_eq⟩ | ⟨_, there⟩ <;>
      rcases threads_goOn found there' with ⟨same', v_eq⟩ | ⟨_, there'⟩
    · rw [same, same']
    · rw [u_eq] at callerU
      rw [same]
      exact h.caller found there' callerU callerV
    · rw [v_eq] at callerV
      rw [same']
      exact h.caller there found callerU callerV
    · exact h.caller there there' callerU callerV
  · intro i j u v there there' markerU takesU markerV takesV
    rw [threads] at there there'
    rcases threads_goOn found there with ⟨same, u_eq⟩ | ⟨other, there⟩ <;>
      rcases threads_goOn found there' with ⟨same', v_eq⟩ | ⟨other', there'⟩
    · rw [same, same']
    · rw [u_eq] at markerU takesU
      exact (only other' there' markerV takesV markerU takesU).elim
    · rw [v_eq] at markerV takesV
      exact (only other there markerU takesU markerV takesV).elim
    · exact h.firstMarker there there' markerU takesU markerV takesV

/-! ## One lemma for each place -/

/-- The threads beside the one that stands where only the caller of `takeSnapshot()` stands. -/
theorem Turns.not_caller (h : Turns D p pr) {state state' : ThreadState Host} {i : ℕ}
    (found : pr.threads[k]? = some ⟨none, state⟩) (other : i ≠ k) :
    pr.threads[i]? ≠ some ⟨none, state'⟩ :=
  fun there => other (h.caller there found rfl rfl)

/-- The caller of `takeSnapshot()` sets the flag: there is no thread of a marker yet. -/
theorem Turns.initiate (h : Turns D p pr) (found : pr.threads[k]? = some ⟨none, .start⟩) :
    Turns D p ({ pr with service := { pr.service with snapshotInitiated := true } }.goOn k
      ⟨none, .start⟩ (.takeSnapshot (D.allPeers p))) := by
  obtain ⟨here, fresh⟩ := h.knows found
  have all : D.channelsToRecord p none = D.allPeers p := by
    apply List.filter_eq_self.mpr
    intro peer _
    exact decide_eq_true nofun
  refine h.goOn found rfl ⟨here, fresh, rfl, all.symm⟩ (fun i u other there => ?_) nofun
    (fun _ => Or.inl rfl) (fun _ => Or.inr here) h.atMostOnce
  have knows := h.knows there
  obtain ⟨_ | sender, place⟩ := u
  · exact (h.not_caller found other there).elim
  · cases place with
    | start =>
        have captured := knows here
        omega
    | takeSnapshot channels => exact (knows.1 here).elim
    | sendMarkerMessageToPeers rest =>
        have captured := knows.1
        omega
    | stopRecording =>
        have captured := knows.1
        omega
    | done =>
        have captured := knows.1
        omega

/-- The first marker that is handled: nobody has taken the snapshot. -/
theorem Turns.first (h : Turns D p pr) {sender : Host}
    (found : pr.threads[k]? = some ⟨some sender, .start⟩) (unlocked : pr.initiatedLocked = false)
    (first : pr.service.snapshotInitiated = false) :
    Turns D p (pr.goOn k ⟨some sender, .start⟩
      (.takeSnapshot ((D.allPeers p).filter fun peer => peer ≠ sender))) := by
  have fresh : captures pr.log = 0 := by
    by_contra captured
    have once := h.atMostOnce
    rcases h.taken (by omega) with flag | ⟨i, c, rest, there⟩
    · rw [first] at flag
      cases flag
    · have held : pr.initiatedLocked = true :=
        List.any_eq_true.mpr ⟨_, List.mem_of_getElem? there, rfl⟩
      rw [unlocked] at held
      cases held
  have elsewhere : p ≠ D.initiator := by
    intro here
    have captured := h.knows found here
    omega
  have channels : (D.allPeers p).filter (fun peer => peer ≠ sender) =
      D.channelsToRecord p (some sender) := by
    unfold Deployment.channelsToRecord
    congr 1
    funext peer
    simp only [ne_eq, Option.some.injEq]
  refine h.goOn found rfl ⟨elsewhere, fresh, first, channels⟩
    (fun i u _ there => h.knows there) (fun _ _ => Or.inr unlocked) (fun captured => ?_)
    h.flagged h.atMostOnce
  have zero : captures pr.log = 1 := captured
  omega

/-- A marker that is not the first. -/
theorem Turns.later (h : Turns D p pr) {sender : Host}
    (found : pr.threads[k]? = some ⟨some sender, .start⟩)
    (later : pr.service.snapshotInitiated = true) :
    Turns D p (pr.goOn k ⟨some sender, .start⟩ .stopRecording) := by
  have captured : captures pr.log = 1 := by
    rcases h.flagged later with captured | here
    · exact captured
    · exact h.knows found here
  exact h.goOn found rfl ⟨captured, later⟩ (fun i u _ there => h.knows there) nofun
    (fun _ => Or.inl later) h.flagged h.atMostOnce

/-- The local state is captured.  Of the other threads only those of markers that wait for the
mutex are there. -/
theorem Turns.capture (h : Turns D p pr) {sender : Option Host} {channels : List Host}
    {localState : State} (found : pr.threads[k]? = some ⟨sender, .takeSnapshot channels⟩) :
    Turns D p (({ pr with
      service := pr.service.takeSnapshot localState channels }.note
        (.localStateRecorded sender)).goOn k ⟨sender, .takeSnapshot channels⟩
          (.sendMarkerMessageToPeers (D.allPeers p))) := by
  have knows := h.knows found
  have fresh : captures pr.log = 0 := by
    cases sender with
    | none => exact knows.2.1
    | some sender => exact knows.2.1
  have captured : captures (pr.log ++ [Action.localStateRecorded sender]) = 1 := by
    rw [captures_concat, fresh]
    rfl
  have flag : (pr.service.takeSnapshot localState channels).snapshotInitiated =
      pr.service.snapshotInitiated := SnapshotService.snapshotInitiated_takeSnapshot _ _ _
  refine h.goOn found rfl ?_ (fun i u other there => ?_) (fun _ _ => Or.inl rfl) (fun _ => ?_) ?_
    (le_of_eq captured)
  · change Thread.Knows D p (pr.service.takeSnapshot localState channels).snapshotInitiated
      (captures (pr.log ++ [_])) _
    rw [captured, flag]
    cases sender with
    | none => exact ⟨knows.1, rfl, knows.2.2.1⟩
    | some sender => exact ⟨rfl, knows.2.2.1⟩
  · change Thread.Knows D p (pr.service.takeSnapshot localState channels).snapshotInitiated
      (captures (pr.log ++ [_])) _
    rw [captured, flag]
    have knowsU := h.knows there
    obtain ⟨senderU, place⟩ := u
    cases senderU with
    | none =>
        cases sender with
        | none => exact (h.not_caller found other there).elim
        | some sender =>
            -- the caller is at the initiator only, the first marker everywhere else
            cases place with
            | start => exact (knows.1 knowsU.1).elim
            | takeSnapshot channels => exact (knows.1 knowsU.1).elim
            | sendMarkerMessageToPeers rest => exact (knows.1 knowsU.1).elim
            | stopRecording => exact knowsU.elim
            | done => exact (knows.1 knowsU.1).elim
    | some senderU =>
        cases place with
        | start => exact fun _ => rfl
        | takeSnapshot channels =>
            cases sender with
            | none => exact (knowsU.1 knows.1).elim
            | some sender => exact (other (h.firstMarker there found rfl rfl rfl rfl)).elim
        | sendMarkerMessageToPeers rest =>
            have before := knowsU.1
            omega
        | stopRecording =>
            have before := knowsU.1
            omega
        | done =>
            have before := knowsU.1
            omega
  · cases sender with
    | none => exact Or.inl (flag.trans knows.2.2.1)
    | some sender => exact Or.inr ⟨k, sender, _, threads_goOn_self found⟩
  · exact fun _ => Or.inl captured

/-- A marker is sent. -/
theorem Turns.send (h : Turns D p pr) {sender : Option Host} {peer : Host} {rest : List Host}
    (found : pr.threads[k]? = some ⟨sender, .sendMarkerMessageToPeers (peer :: rest)⟩) :
    Turns D p ((pr.note (.markerSent peer)).goOn k
      ⟨sender, .sendMarkerMessageToPeers (peer :: rest)⟩ (.sendMarkerMessageToPeers rest)) := by
  have same : captures (pr.log ++ [Action.markerSent peer]) = captures pr.log :=
    captures_concat pr.log _
  refine h.goOn found rfl ?_ (fun i u _ there => ?_) (fun _ _ => Or.inl rfl) (fun captured => ?_)
    ?_ ?_
  · change Thread.Knows D p _ (captures (pr.log ++ [_])) _
    rw [same]
    have knows := h.knows found
    cases sender with
    | none => exact knows
    | some sender => exact knows
  · change Thread.Knows D p _ (captures (pr.log ++ [_])) _
    rw [same]
    exact h.knows there
  · cases sender with
    | none => exact Or.inl (h.knows found).2.2
    | some sender => exact Or.inr ⟨k, sender, rest, threads_goOn_self found⟩
  · change _ → captures (pr.log ++ [_]) = 1 ∨ _
    rw [same]
    exact h.flagged
  · change captures (pr.log ++ [_]) ≤ 1
    rw [same]
    exact h.atMostOnce

/-- `takeSnapshot()` returns. -/
theorem Turns.returned (h : Turns D p pr)
    (found : pr.threads[k]? = some ⟨none, .sendMarkerMessageToPeers []⟩) :
    Turns D p (pr.goOn k ⟨none, .sendMarkerMessageToPeers []⟩ .done) :=
  have knows := h.knows found
  h.goOn found rfl knows (fun _ _ _ there => h.knows there) nofun (fun _ => Or.inl knows.2.2)
    h.flagged h.atMostOnce

/-- The thread of the first marker sets the flag. -/
theorem Turns.returnedToMarker (h : Turns D p pr) {sender : Host}
    (found : pr.threads[k]? = some ⟨some sender, .sendMarkerMessageToPeers []⟩) :
    Turns D p ({ pr with service := { pr.service with snapshotInitiated := true } }.goOn k
      ⟨some sender, .sendMarkerMessageToPeers []⟩ .stopRecording) := by
  obtain ⟨captured, unset⟩ := h.knows found
  refine h.goOn found rfl ⟨captured, rfl⟩ (fun i u other there => ?_) nofun
    (fun _ => Or.inl rfl) (fun _ => Or.inl captured) h.atMostOnce
  have knows := h.knows there
  obtain ⟨_ | senderU, place⟩ := u
  · cases place with
    | start => exact knows
    | takeSnapshot channels => exact ⟨knows.1, knows.2.1, rfl, knows.2.2.2⟩
    | sendMarkerMessageToPeers rest => exact ⟨knows.1, captured, rfl⟩
    | stopRecording => exact knows
    | done => exact ⟨knows.1, captured, rfl⟩
  · cases place with
    | start => exact knows
    | takeSnapshot channels =>
        have fresh := knows.2.1
        omega
    | sendMarkerMessageToPeers rest =>
        exact (other (h.firstMarker there found rfl rfl rfl rfl)).elim
    | stopRecording => exact ⟨captured, rfl⟩
    | done => exact ⟨captured, rfl⟩

/-- A marker has been handled. -/
theorem Turns.handle (h : Turns D p pr) {sender : Host}
    (found : pr.threads[k]? = some ⟨some sender, .stopRecording⟩) :
    Turns D p (({ pr with service := pr.service.stopRecording sender }.note
      (.markerHandled sender)).goOn k ⟨some sender, .stopRecording⟩ .done) := by
  have same : captures (pr.log ++ [Action.markerHandled sender]) = captures pr.log :=
    captures_concat pr.log _
  obtain ⟨captured, flag⟩ := h.knows found
  refine h.goOn found rfl ⟨same.trans captured, flag⟩ (fun i u _ there => ?_) nofun
    (fun _ => Or.inl flag) (fun _ => Or.inl (same.trans captured))
    (le_of_eq (same.trans captured))
  change Thread.Knows D p _ (captures (pr.log ++ [_])) _
  rw [same]
  exact h.knows there

/-- A step that leaves the threads, the flag and the number of captures alone. -/
theorem Turns.of_same (h : Turns D p pr) (threads : next.threads = pr.threads)
    (flag : next.service.snapshotInitiated = pr.service.snapshotInitiated)
    (captured : captures next.log = captures pr.log) : Turns D p next := by
  obtain ⟨knows, caller, firstMarker, taken, flagged, atMostOnce⟩ := h
  refine ⟨?_, ?_, ?_, ?_, ?_, ?_⟩
  · rwa [threads, flag, captured]
  · rwa [threads]
  · rwa [threads]
  · rwa [threads, flag, captured]
  · rwa [flag, captured]
  · rwa [captured]

end GroupComm.Lab1.Snapshot
