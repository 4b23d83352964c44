import GroupComm.Lab1.Turns
import GroupComm.Library.Log

/-!
# What a snapshot records

A process captures its state at most once and sends at most one marker to each peer.  When it has
handled a marker of every peer, nothing is to be recorded any more, and what is recorded of a
channel are the messages between the capture and the handling of its marker; of the channel that
the first marker came over it is nothing.

* `Announces` counts the markers that a process has sent and those it still has to send.
* `Records` relates the channels of a process to its log.
* `Sound` is the whole system: no marker is under way before the initiator has captured its state.
-/

namespace GroupComm.Lab1.Snapshot

open Transition

variable {Host Text State : Type} [DecidableEq Host]

def Action.handles (c : Host) : Action Host Text → Bool
  | .markerHandled sender => sender = c
  | _ => false

def Action.sends (peer : Host) : Action Host Text → Bool
  | .markerSent q => q = peer
  | _ => false

/-- What a call of `recordIncomingMessages` for a message of `c` has been called with. -/
def Action.textFrom (c : Host) : Action Host Text → Option Text
  | .recordIncomingMessages sender text => if sender = c then some text else none
  | _ => none

/-- How many markers have been sent to a peer. -/
def markersTo (peer : Host) (log : List (Action Host Text)) : ℕ :=
  log.countP (Action.sends peer)

/-- The messages of `c` after the capture of the local state and before `c`'s marker is handled. -/
def textsInBetween (c : Host) (log : List (Action Host Text)) : List Text :=
  (Log.window Action.capturesState (Action.handles c) log).filterMap (Action.textFrom c)

theorem markersTo_concat (peer : Host) (log : List (Action Host Text))
    (action : Action Host Text) :
    markersTo peer (log ++ [action]) = markersTo peer log +
      if action.sends peer then 1 else 0 := by
  rw [markersTo, List.countP_append, List.countP_singleton, markersTo]

variable {D : Deployment Host} {p : Host} {pr next : Process Host Text State} {k : ℕ}
  {t : Thread Host} {state : ThreadState Host}

/-! ## The markers of a process -/

structure Announces (D : Deployment Host) (p : Host) (pr : Process Host Text State) : Prop where
  sending : ∀ {i : ℕ} {sender : Option Host} {rest : List Host},
    pr.threads[i]? = some ⟨sender, .sendMarkerMessageToPeers rest⟩ →
      ∀ peer, markersTo peer pr.log + rest.count peer ≤ (D.allPeers p).count peer
  sent : ∀ peer, markersTo peer pr.log ≤ (D.allPeers p).count peer
  notYet : captures pr.log = 0 → ∀ peer, markersTo peer pr.log = 0

/-- A thread goes on that does not send markers then. -/
theorem Announces.goOn (h : Announces D p pr) (found : pr.threads[k]? = some t)
    (threads : next.threads = (pr.goOn k t state).threads)
    (same : ∀ peer, markersTo peer next.log = markersTo peer pr.log)
    (captured : captures pr.log ≤ captures next.log)
    (quiet : ∀ rest, state ≠ .sendMarkerMessageToPeers rest) : Announces D p next := by
  refine ⟨fun {i sender rest} there => ?_, fun peer => ?_, fun fresh peer => ?_⟩
  · intro peer
    rw [threads] at there
    rw [same]
    rcases threads_goOn found there with ⟨_, eq⟩ | ⟨_, there⟩
    · cases eq
      exact (quiet rest rfl).elim
    · exact h.sending there peer
  · rw [same]
    exact h.sent peer
  · rw [same]
    exact h.notYet (by omega) peer

/-- The thread that has captured the local state sends a marker to every peer. -/
theorem Announces.capture (h : Announces D p pr) (found : pr.threads[k]? = some t)
    (fresh : captures pr.log = 0) (sender : Option Host)
    (threads : next.threads =
      (pr.goOn k t (.sendMarkerMessageToPeers (D.allPeers p))).threads)
    (log : next.log = pr.log ++ [.localStateRecorded sender]) : Announces D p next := by
  have none : ∀ peer, markersTo peer next.log = 0 := by
    intro peer
    rw [log, markersTo_concat, h.notYet fresh]
    rfl
  refine ⟨fun {i sender rest} there => ?_, fun peer => ?_, fun _ => none⟩
  · intro peer
    rw [threads] at there
    rw [none]
    rcases threads_goOn found there with ⟨_, eq⟩ | ⟨_, there⟩
    · cases eq
      omega
    · have before := h.sending there peer
      omega
  · rw [none]
    exact Nat.zero_le _

/-- A marker is sent; no other thread sends any. -/
theorem Announces.send (h : Announces D p pr) {sender : Option Host} {peer : Host}
    {rest : List Host} (captured : captures pr.log = 1)
    (found : pr.threads[k]? = some ⟨sender, .sendMarkerMessageToPeers (peer :: rest)⟩)
    (alone : ∀ {i : ℕ} {sender' : Option Host} {rest' : List Host},
      pr.threads[i]? = some ⟨sender', .sendMarkerMessageToPeers rest'⟩ → i = k) :
    Announces D p ((pr.note (.markerSent peer)).goOn k
      ⟨sender, .sendMarkerMessageToPeers (peer :: rest)⟩ (.sendMarkerMessageToPeers rest)) := by
  have bound : ∀ q, markersTo q (pr.log ++ [.markerSent peer]) + rest.count q ≤
      (D.allPeers p).count q := by
    intro q
    have before := h.sending found q
    rw [List.count_cons] at before
    rw [markersTo_concat]
    by_cases same : peer = q
    · subst same
      simp only [beq_self_eq_true, if_true] at before
      simp only [Action.sends, decide_true, if_true]
      omega
    · simp only [Action.sends, same, decide_false]
      simp only [beq_eq_false_iff_ne.mpr same] at before
      simpa using before
  refine ⟨fun {i sender' rest'} there => ?_, fun q => ?_, fun fresh => ?_⟩
  · intro q
    rcases threads_goOn found there with ⟨_, eq⟩ | ⟨other, there⟩
    · cases eq
      exact bound q
    · exact (other (alone there)).elim
  · have both := bound q
    change markersTo q (pr.log ++ [_]) ≤ _
    omega
  · have same : captures (pr.log ++ [Action.markerSent peer]) = captures pr.log :=
      captures_concat pr.log _
    have zero : captures (pr.log ++ [Action.markerSent peer]) = 0 := fresh
    omega

theorem Announces.of_same (h : Announces D p pr)
    (threads : ∀ {i : ℕ} {sender : Option Host} {rest : List Host},
      next.threads[i]? = some ⟨sender, .sendMarkerMessageToPeers rest⟩ →
        pr.threads[i]? = some ⟨sender, .sendMarkerMessageToPeers rest⟩)
    (same : ∀ peer, markersTo peer next.log = markersTo peer pr.log)
    (captured : captures next.log = captures pr.log) : Announces D p next := by
  refine ⟨fun there peer => ?_, fun peer => ?_, fun fresh peer => ?_⟩
  · rw [same]
    exact h.sending (threads there) peer
  · rw [same]
    exact h.sent peer
  · rw [same]
    exact h.notYet (by omega) peer

/-! ## The channels of a process -/

section Texts

variable {log : List (Action Host Text)} {c : Host} {action : Action Host Text}

/-- An entry that is no message of `c` leaves the messages of `c` as they are. -/
theorem textsInBetween_concat_of_none (captured : captures log ≠ 0)
    (none : action.textFrom c = none) :
    textsInBetween c (log ++ [action]) = textsInBetween c log := by
  have opened := exists_capturesState captured
  unfold textsInBetween
  by_cases closes : action.handles c = true
  · rw [Log.window_concat_of_closes opened closes]
  · by_cases closed : ∃ a ∈ Log.since Action.capturesState log, a.handles c = true
    · rw [Log.window_concat_of_closed opened closed]
    · have notYet : ∀ a ∈ Log.since Action.capturesState log, a.handles c = false := by
        intro a inside
        rw [← Bool.not_eq_true]
        exact fun found => closed ⟨a, inside, found⟩
      obtain ⟨a, mem, opens⟩ := opened
      rw [Log.window, Log.since_append_of_mem mem opens, Log.before_append_of_forall notYet,
        Log.window, Log.before_of_forall notYet, List.filterMap_append]
      have single : (Log.before (Action.handles c) [action]).filterMap (Action.textFrom c) = [] := by
        apply List.filterMap_eq_nil_iff.mpr
        intro b inside
        rwa [List.mem_singleton.mp (Log.subset_of_before inside)]
      rw [single, List.append_nil]

/-- Nothing is in between before the capture, and nothing with it. -/
theorem textsInBetween_capture (fresh : captures log = 0) (sender : Option Host) :
    textsInBetween c (log ++ [.localStateRecorded sender]) = [] := by
  rw [textsInBetween, Log.window_concat_of_forall (captures_eq_zero.mp fresh) rfl rfl]
  rfl

/-- A message of `c` before its marker is handled. -/
theorem textsInBetween_record (captured : captures log ≠ 0)
    (notYet : ∀ a ∈ log, a.handles c = false) (text : Text) :
    textsInBetween c (log ++ [.recordIncomingMessages c text]) =
      textsInBetween c log ++ [text] := by
  rw [textsInBetween, Log.window_concat (exists_capturesState captured) notYet rfl,
    List.filterMap_append, textsInBetween]
  simp [Action.textFrom]

/-- A message of `c` after its marker has been handled. -/
theorem textsInBetween_late (captured : captures log ≠ 0)
    (handled : ∃ a ∈ Log.since Action.capturesState log, a.handles c = true) :
    textsInBetween c (log ++ [action]) = textsInBetween c log := by
  rw [textsInBetween, Log.window_concat_of_closed (exists_capturesState captured) handled,
    textsInBetween]

end Texts

structure Records (D : Deployment Host) (p : Host) (pr : Process Host Text State) : Prop where
  notYet : captures pr.log = 0 → pr.service.channelsToBeRecorded = ∅ ∧
    (∀ c, pr.service.recorded c = []) ∧ ∀ a ∈ pr.log, ∀ c, a.handles c = false
  channels : ∀ first : Option Host, .localStateRecorded first ∈ pr.log → ∀ c,
    c ∈ pr.service.channelsToBeRecorded ↔
      c ∈ D.channelsToRecord p first ∧ ∀ a ∈ pr.log, a.handles c = false
  recorded : ∀ first : Option Host, .localStateRecorded first ∈ pr.log → ∀ c,
    pr.service.recorded c =
      if c ∈ D.channelsToRecord p first then textsInBetween c pr.log else []
  /-- A marker is handled after the capture. -/
  after : ∀ {c : Host}, (∃ a ∈ pr.log, a.handles c = true) →
    ∃ a ∈ Log.since Action.capturesState pr.log, a.handles c = true
  mapped : pr.service.Mapped
  /-- Only the initiator captures its state without a marker. -/
  unasked : ∀ first : Option Host, .localStateRecorded first ∈ pr.log →
    (first = none ↔ p = D.initiator)

theorem Records.of_same (h : Records D p pr) (log : next.log = pr.log)
    (channels : next.service.channelsToBeRecorded = pr.service.channelsToBeRecorded)
    (incoming : next.service.incomingChannels = pr.service.incomingChannels) :
    Records D p next := by
  obtain ⟨notYet, open', recorded, after, mapped, unasked⟩ := h
  have same : ∀ c, next.service.recorded c = pr.service.recorded c := by
    intro c
    rw [SnapshotService.recorded, incoming, SnapshotService.recorded]
  refine ⟨?_, ?_, ?_, ?_, ?_, ?_⟩
  · simpa only [log, channels, same] using notYet
  · simpa only [log, channels] using open'
  · simpa only [log, same] using recorded
  · rwa [log]
  · unfold SnapshotService.Mapped
    rwa [channels, incoming]
  · rwa [log]

/-- The handled markers of a longer log. -/
theorem Records.after_concat (h : Records D p pr) (action : Action Host Text) {c : Host}
    (captured : action.handles c = true → captures pr.log ≠ 0)
    (handled : ∃ a ∈ pr.log ++ [action], a.handles c = true) :
    ∃ a ∈ Log.since Action.capturesState (pr.log ++ [action]), a.handles c = true := by
  obtain ⟨a, mem, handles⟩ := handled
  have opened : captures pr.log ≠ 0 := by
    rcases List.mem_append.mp mem with old | single
    · intro fresh
      rw [(h.notYet fresh).2.2 a old c] at handles
      cases handles
    · rw [List.mem_singleton.mp single] at handles
      exact captured handles
  obtain ⟨b, memB, opens⟩ := exists_capturesState opened
  rw [Log.since_append_of_mem memB opens]
  rcases List.mem_append.mp mem with old | single
  · obtain ⟨a', inside, handles'⟩ := h.after ⟨a, old, handles⟩
    exact ⟨a', List.mem_append_left _ inside, handles'⟩
  · exact ⟨a, List.mem_append_right _ single, handles⟩

/-- An entry is added that is neither a capture nor a marker handled, nor a message. -/
theorem Records.note (h : Records D p pr) {action : Action Host Text}
    (noCapture : action.capturesState = false) (noMarker : ∀ c, action.handles c = false)
    (noText : ∀ c, action.textFrom c = none) : Records D p (pr.note action) := by
  have same : captures (pr.log ++ [action]) = captures pr.log := by
    rw [captures_concat, noCapture]
    rfl
  have old : ∀ {sender : Option Host}, .localStateRecorded sender ∈ pr.log ++ [action] →
      .localStateRecorded sender ∈ pr.log := by
    intro sender mem
    rcases List.mem_append.mp mem with mem | single
    · exact mem
    · rw [← List.mem_singleton.mp single] at noCapture
      cases noCapture
  have handled : ∀ c, (∀ a ∈ pr.log ++ [action], a.handles c = false) ↔
      ∀ a ∈ pr.log, a.handles c = false := by
    intro c
    simp [List.mem_append, or_imp, forall_and, noMarker]
  refine ⟨fun fresh => ?_, fun first mem c => ?_, fun first mem c => ?_, fun found => ?_, h.mapped,
    fun first mem => h.unasked first (old mem)⟩
  · obtain ⟨noChannels, noTexts, none⟩ := h.notYet (same.symm.trans fresh)
    exact ⟨noChannels, noTexts, fun a mem c => (handled c).mpr (fun a mem => none a mem c) a mem⟩
  · exact (h.channels first (old mem) c).trans (and_congr_right fun _ => (handled c).symm)
  · change pr.service.recorded c = if _ then textsInBetween c (pr.log ++ [action]) else []
    rw [textsInBetween_concat_of_none (mem_captured (old mem)) (noText c)]
    exact h.recorded first (old mem) c
  · refine h.after_concat action (fun handles => ?_) found
    rw [noMarker] at handles
    cases handles

/-- The local state is captured. -/
theorem Records.capture (h : Records D p pr) (fresh : captures pr.log = 0)
    {sender : Option Host} (unasked : sender = none ↔ p = D.initiator) (localState : State) :
    Records D p ({ pr with
      service := pr.service.takeSnapshot localState (D.channelsToRecord p sender) }.note
        (.localStateRecorded sender)) := by
  obtain ⟨noChannels, noTexts, none⟩ := h.notYet fresh
  have only : ∀ {sender' : Option Host},
      .localStateRecorded sender' ∈ pr.log ++ [.localStateRecorded sender] →
        sender' = sender := by
    intro sender' mem
    rcases List.mem_append.mp mem with old | single
    · exact (mem_captured old fresh).elim
    · cases List.mem_singleton.mp single
      rfl
  have noneHandled : ∀ c, ∀ a ∈ pr.log ++ [.localStateRecorded sender],
      a.handles c = false := by
    intro c a mem
    rcases List.mem_append.mp mem with old | single
    · exact none a old c
    · rw [List.mem_singleton.mp single]
      rfl
  refine ⟨fun zero => ?_, fun first mem c => ?_, fun first mem c => ?_, fun found => ?_,
    h.mapped.takeSnapshot, fun first mem => ?_⟩
  · have one : captures (pr.log ++ [Action.localStateRecorded sender]) = 1 := by
      rw [captures_concat, fresh]
      rfl
    have same : captures (pr.log ++ [Action.localStateRecorded sender]) = 0 := zero
    omega
  · rw [only mem]
    refine SnapshotService.mem_channelsToBeRecorded_takeSnapshot.trans ?_
    rw [noChannels]
    constructor
    · intro inside
      rcases inside with inside | away
      · exact ⟨inside, noneHandled c⟩
      · exact (Finset.notMem_empty c away).elim
    · exact fun both => Or.inl both.1
  · rw [only mem]
    change (pr.service.takeSnapshot localState _).recorded c =
      if _ then textsInBetween c (pr.log ++ [_]) else []
    rw [SnapshotService.recorded_takeSnapshot, textsInBetween_capture fresh, noTexts]
  · exact h.after_concat _ nofun found
  · rw [only mem]
    exact unasked

/-- A marker has been handled. -/
theorem Records.handle (h : Records D p pr) (captured : captures pr.log = 1) (sender : Host) :
    Records D p ({ pr with service := pr.service.stopRecording sender }.note
      (.markerHandled sender)) := by
  have nonzero : captures pr.log ≠ 0 := by omega
  have old : ∀ {first : Option Host},
      .localStateRecorded first ∈ pr.log ++ [.markerHandled sender] →
        .localStateRecorded first ∈ pr.log := by
    intro first mem
    rcases List.mem_append.mp mem with mem | single
    · exact mem
    · cases List.mem_singleton.mp single
  refine ⟨fun fresh => ?_, fun first mem c => ?_, fun first mem c => ?_, fun found => ?_,
    h.mapped.stopRecording, fun first mem => h.unasked first (old mem)⟩
  · have same : captures (pr.log ++ [Action.markerHandled sender]) = captures pr.log :=
      captures_concat pr.log _
    have zero : captures (pr.log ++ [Action.markerHandled sender]) = 0 := fresh
    omega
  · refine Finset.mem_erase.trans ?_
    rw [h.channels first (old mem) c]
    change _ ↔ _ ∧ ∀ a ∈ pr.log ++ [Action.markerHandled sender], a.handles c = false
    constructor
    · intro both
      refine ⟨both.2.1, fun a inside => ?_⟩
      rcases List.mem_append.mp inside with inside | single
      · exact both.2.2 a inside
      · rw [List.mem_singleton.mp single]
        exact decide_eq_false fun same => both.1 same.symm
    · intro both
      refine ⟨?_, both.1, fun a inside => both.2 a (List.mem_append_left _ inside)⟩
      intro same
      have single := both.2 (.markerHandled sender)
        (List.mem_append_right _ (List.mem_singleton_self _))
      exact of_decide_eq_false single same.symm
  · change pr.service.recorded c = if _ then textsInBetween c (pr.log ++ [_]) else []
    rw [textsInBetween_concat_of_none nonzero rfl]
    exact h.recorded first (old mem) c
  · exact h.after_concat _ (fun _ => nonzero) found

/-- `recordIncomingMessages` is called. -/
theorem Records.record (h : Records D p pr) {sender : Host} {text : Text}
    {service : SnapshotService Host Text State}
    (called : pr.service.recordIncomingMessages sender text = some service) :
    Records D p ({ pr with service := service }.note
      (.recordIncomingMessages sender text)) := by
  obtain ⟨service', called', mapped, _, channels, recorded⟩ :=
    h.mapped.recordIncomingMessages sender text
  rw [called] at called'
  cases called'
  have old : ∀ {first : Option Host},
      .localStateRecorded first ∈ pr.log ++ [.recordIncomingMessages sender text] →
        .localStateRecorded first ∈ pr.log := by
    intro first mem
    rcases List.mem_append.mp mem with mem | single
    · exact mem
    · cases List.mem_singleton.mp single
  have handled : ∀ c, (∀ a ∈ pr.log ++ [.recordIncomingMessages sender text],
      a.handles c = false) ↔ ∀ a ∈ pr.log, a.handles c = false := by
    intro c
    simp [List.mem_append, or_imp, forall_and, Action.handles]
  refine ⟨fun fresh => ?_, fun first mem c => ?_, fun first mem c => ?_, fun found => ?_, mapped,
    fun first mem => h.unasked first (old mem)⟩
  · have same : captures (pr.log ++ [Action.recordIncomingMessages sender text]) =
        captures pr.log := captures_concat pr.log _
    obtain ⟨noChannels, noTexts, none⟩ := h.notYet (same.symm.trans fresh)
    refine ⟨channels.trans noChannels, fun c => ?_, fun a mem c =>
      (handled c).mpr (fun a mem => none a mem c) a mem⟩
    refine (recorded c).trans ?_
    rw [noChannels, if_neg fun both => Finset.notMem_empty c both.2]
    exact noTexts c
  · change c ∈ service.channelsToBeRecorded ↔ _
    rw [channels]
    exact (h.channels first (old mem) c).trans (and_congr_right fun _ => (handled c).symm)
  · change service.recorded c = if _ then textsInBetween c (pr.log ++ [_]) else []
    have captured := mem_captured (old mem)
    have before := h.recorded first (old mem) c
    have isOpen := h.channels first (old mem) c
    rw [recorded, before]
    by_cases inside : c ∈ D.channelsToRecord p first
    · rw [if_pos inside, if_pos inside]
      by_cases own : c = sender
      · subst own
        by_cases notYet : ∀ a ∈ pr.log, a.handles c = false
        · rw [if_pos ⟨rfl, isOpen.mpr ⟨inside, notYet⟩⟩, textsInBetween_record captured notYet]
        · -- the channel is closed
          have closed : ∃ a ∈ pr.log, a.handles c = true := by
            by_contra none
            apply notYet
            intro a mem
            rw [← Bool.not_eq_true]
            exact fun handles => none ⟨a, mem, handles⟩
          rw [if_neg fun both => notYet (isOpen.mp both.2).2,
            textsInBetween_late captured (h.after closed)]
      · rw [if_neg fun both => own both.1]
        refine (textsInBetween_concat_of_none captured ?_).symm
        exact if_neg (Ne.symm own)
    · rw [if_neg inside, if_neg inside, if_neg fun both => inside (isOpen.mp both.2).1]
  · exact h.after_concat _ nofun found

/-! ## The whole system -/

/-- A thread of a marker is there. -/
def Process.HasMarker (pr : Process Host Text State) : Prop :=
  ∃ (i : ℕ) (sender : Host) (state : ThreadState Host), pr.threads[i]? = some ⟨some sender, state⟩

omit [DecidableEq Host] in
theorem HasMarker.of_goOn (found : pr.threads[k]? = some t)
    (threads : next.threads = (pr.goOn k t state).threads) (marker : next.HasMarker) :
    pr.HasMarker := by
  obtain ⟨i, sender, state', there⟩ := marker
  rw [threads] at there
  rcases threads_goOn found there with ⟨_, same⟩ | ⟨_, there⟩
  · obtain ⟨sender', before⟩ := t
    cases same
    exact ⟨k, sender, before, found⟩
  · exact ⟨i, sender, state', there⟩

structure Sound (D : Deployment Host) (s : System Host Text State) : Prop where
  turns : ∀ p, Turns D p (s.processes p)
  announces : ∀ p, Announces D p (s.processes p)
  records : ∀ p, Records D p (s.processes p)
  /-- No marker is under way before the initiator has captured its state. -/
  asked : ∀ p, s.backlog p ≠ [] ∨ (s.processes p).HasMarker ∨ captures (s.processes p).log = 1 →
    captures (s.processes D.initiator).log = 1

variable {s s' : System Host Text State}

theorem sound_initial (D : Deployment Host) : Sound D (System.initial D :
    System Host Text State) := by
  have threads : ∀ p i t, ((System.initial D :
      System Host Text State).processes p).threads[i]? = some t →
        p = D.initiator ∧ i = 0 ∧ t = ⟨none, .start⟩ := by
    intro p i t there
    change (if p = D.initiator then [⟨none, .start⟩] else [])[i]? = some t at there
    split at there
    · rename_i here
      rw [List.getElem?_singleton] at there
      split at there
      · rename_i zero
        exact ⟨here, zero, (Option.some.inj there).symm⟩
      · cases there
    · cases there
  refine ⟨fun p => ⟨fun there => ?_, fun there there' _ _ => ?_, fun there _ marker => ?_, nofun,
    nofun, Nat.zero_le _⟩, fun p => ⟨fun there => ?_, fun _ => Nat.zero_le _, fun _ _ => rfl⟩,
    fun p => ⟨fun _ => ⟨rfl, fun _ => rfl, nofun⟩, nofun, nofun, nofun, nofun, nofun⟩,
    fun p some => ?_⟩
  · obtain ⟨here, _, same⟩ := threads _ _ _ there
    rw [same]
    exact ⟨here, rfl⟩
  · obtain ⟨_, zero, _⟩ := threads _ _ _ there
    obtain ⟨_, zero', _⟩ := threads _ _ _ there'
    omega
  · obtain ⟨_, _, same⟩ := threads _ _ _ there
    rw [same] at marker
    cases marker
  · obtain ⟨_, _, same⟩ := threads _ _ _ there
    cases same
  · rcases some with waiting | ⟨i, sender, state, there⟩ | captured
    · exact (waiting rfl).elim
    · obtain ⟨_, _, same⟩ := threads _ _ _ there
      cases same
    · cases captured

/-- One process changes. -/
theorem Sound.setProcess (h : Sound D s) (turns : Turns D p next) (announces : Announces D p next)
    (records : Records D p next)
    (grows : captures (s.processes p).log ≤ captures next.log)
    (asked : next.HasMarker ∨ captures next.log = 1 →
      captures (s.processes D.initiator).log = 1 ∨ p = D.initiator ∧ captures next.log = 1) :
    Sound D (s.setProcess p next) := by
  have change : ∀ {P : Host → Process Host Text State → Prop}, P p next →
      (∀ q, P q (s.processes q)) → ∀ q, P q ((s.setProcess p next).processes q) := by
    intro P here elsewhere q
    change P q (Function.update s.processes p next q)
    rw [Function.update_apply]
    split
    · rename_i same
      rw [same]
      exact here
    · exact elsewhere q
  have atInitiator : captures (s.processes D.initiator).log = 1 ∨
      p = D.initiator ∧ captures next.log = 1 →
        captures ((s.setProcess p next).processes D.initiator).log = 1 := by
    change _ → captures (Function.update s.processes p next D.initiator).log = 1
    rw [Function.update_apply]
    intro captured
    split
    · rename_i same
      rcases captured with before | ⟨_, now⟩
      · have once := turns.atMostOnce
        rw [← same] at grows
        omega
      · exact now
    · rename_i other
      rcases captured with before | ⟨here, _⟩
      · exact before
      · exact (other here.symm).elim
  refine ⟨change turns h.turns, change announces h.announces, change records h.records, ?_⟩
  refine change (P := fun q pr => s.backlog q ≠ [] ∨ pr.HasMarker ∨ captures pr.log = 1 →
    captures ((s.setProcess p next).processes D.initiator).log = 1) (fun some => ?_)
    fun q some => atInitiator (Or.inl (h.asked q some))
  rcases some with waiting | some
  · exact atInitiator (Or.inl (h.asked p (Or.inl waiting)))
  · exact atInitiator (asked some)

/-- Markers are sent or accepted. -/
theorem Sound.setBacklog (h : Sound D s) {senders : List Host}
    (asked : senders ≠ [] → captures (s.processes D.initiator).log = 1) :
    Sound D (s.setBacklog p senders) := by
  obtain ⟨turns, announces, records, known⟩ := h
  refine ⟨turns, announces, records, fun q some => ?_⟩
  change Function.update s.backlog p senders q ≠ [] ∨ _ at some
  rw [Function.update_apply] at some
  split at some
  · rcases some with waiting | some
    · exact asked waiting
    · exact known q (Or.inr some)
  · exact known q some

/-- A thread of `p` goes on, without capturing the state. -/
theorem Sound.goOn (h : Sound D s) (found : (s.processes p).threads[k]? = some t)
    (threads : next.threads = ((s.processes p).goOn k t state).threads)
    (same : captures next.log = captures (s.processes p).log) (turns : Turns D p next)
    (announces : Announces D p next) (records : Records D p next) :
    Sound D (s.setProcess p next) := by
  refine h.setProcess turns announces records (le_of_eq same.symm) fun some => Or.inl ?_
  apply h.asked p
  rcases some with marker | captured
  · exact Or.inr (Or.inl (HasMarker.of_goOn found threads marker))
  · exact Or.inr (Or.inr (same.symm.trans captured))

/-- Only one thread sends markers. -/
theorem Turns.sends_alone (h : Turns D p pr) {sender sender' : Option Host} {rest rest' : List Host}
    {i j : ℕ} (found : pr.threads[i]? = some ⟨sender, .sendMarkerMessageToPeers rest⟩)
    (there : pr.threads[j]? = some ⟨sender', .sendMarkerMessageToPeers rest'⟩) : j = i := by
  have knows := h.knows found
  have knows' := h.knows there
  cases sender with
  | none =>
      cases sender' with
      | none => exact h.caller there found rfl rfl
      | some sender' =>
          have set := knows.2.2
          rw [knows'.2] at set
          cases set
  | some sender =>
      cases sender' with
      | none =>
          have set := knows'.2.2
          rw [knows.2] at set
          cases set
      | some sender' => exact h.firstMarker there found rfl rfl rfl rfl

/-- `start` accepts a connection. -/
theorem Sound.accept (h : Sound D s) {i : ℕ} {sender : Host}
    (waiting : (s.backlog p)[i]? = some sender) :
    Sound D ((s.setBacklog p ((s.backlog p).eraseIdx i)).setProcess p
      { s.processes p with threads := (s.processes p).threads ++ [⟨some sender, .start⟩] }) := by
  have captured : captures (s.processes D.initiator).log = 1 :=
    h.asked p (Or.inl (List.ne_nil_of_mem (List.mem_of_getElem? waiting)))
  have threads : ∀ {j : ℕ} {u : Thread Host},
      ((s.processes p).threads ++ [⟨some sender, .start⟩])[j]? = some u →
        (s.processes p).threads[j]? = some u ∨ u = ⟨some sender, .start⟩ := by
    intro j u there
    rw [List.getElem?_append] at there
    split at there
    · exact Or.inl there
    · rw [List.getElem?_singleton] at there
      split at there
      · exact Or.inr (Option.some.inj there).symm
      · cases there
  have h' : Sound D (s.setBacklog p ((s.backlog p).eraseIdx i)) :=
    h.setBacklog fun _ => captured
  have turns := h.turns p
  let next : Process Host Text State :=
    { s.processes p with threads := (s.processes p).threads ++ [⟨some sender, .start⟩] }
  refine h'.setProcess (show Turns D p next from ⟨fun there => ?_,
      fun there there' none none' => ?_, ?_, fun one => ?_, turns.flagged, turns.atMostOnce⟩)
    ((h.announces p).of_same (fun there => ?_) (fun _ => rfl) rfl)
    ((h.records p).of_same rfl rfl rfl) le_rfl fun _ => Or.inl captured
  · rcases threads there with there | same
    · exact turns.knows there
    · rw [same]
      intro here
      change captures (s.processes p).log = 1
      rw [here]
      exact captured
  · rcases threads there with there | same
    · rcases threads there' with there' | same'
      · exact turns.caller there there' none none'
      · rw [same'] at none'
        cases none'
    · rw [same] at none
      cases none
  · intro i j u v there there' marker takes marker' takes'
    rcases threads there with there | same
    · rcases threads there' with there' | same'
      · exact turns.firstMarker there there' marker takes marker' takes'
      · rw [same'] at takes'
        cases takes'
    · rw [same] at takes
      cases takes
  · rcases turns.taken one with flag | ⟨j, c, rest, there⟩
    · exact Or.inl flag
    · refine Or.inr ⟨j, c, rest, ?_⟩
      have less := (List.getElem?_eq_some_iff.mp there).1
      exact (List.getElem?_append_left less).trans there
  · rcases threads there with there | same
    · exact there
    · cases same

/-- A thread captures the local state. -/
theorem Sound.capture (h : Sound D s) {sender : Option Host} {channels : List Host}
    {localState : State}
    (found : (s.processes p).threads[k]? = some ⟨sender, .takeSnapshot channels⟩) :
    Sound D (s.setProcess p (({ s.processes p with
      service := (s.processes p).service.takeSnapshot localState channels }.note
        (.localStateRecorded sender)).goOn k ⟨sender, .takeSnapshot channels⟩
          (.sendMarkerMessageToPeers (D.allPeers p)))) := by
  have knows := (h.turns p).knows found
  have known : captures (s.processes p).log = 0 ∧ channels = D.channelsToRecord p sender ∧
      (sender = none ↔ p = D.initiator) := by
    cases sender with
    | none => exact ⟨knows.2.1, knows.2.2.2, fun _ => knows.1, fun _ => rfl⟩
    | some sender => exact ⟨knows.2.1, knows.2.2.2, nofun, fun here => (knows.1 here).elim⟩
  obtain ⟨fresh, channels_eq, unasked⟩ := known
  have captured : captures ((s.processes p).log ++ [Action.localStateRecorded sender]) = 1 := by
    rw [captures_concat, fresh]
    rfl
  refine h.setProcess ((h.turns p).capture found)
    ((h.announces p).capture found fresh sender rfl rfl) ?_ ?_ fun _ => ?_
  · rw [channels_eq]
    exact ((h.records p).capture fresh unasked localState).of_same rfl rfl rfl
  · rw [fresh]
    exact Nat.zero_le _
  · cases sender with
    | none => exact Or.inr ⟨knows.1, captured⟩
    | some sender => exact Or.inl (h.asked p (Or.inr (Or.inl ⟨k, sender, _, found⟩)))

/-- A thread sends a marker. -/
theorem Sound.send (h : Sound D s) {sender : Option Host} {peer : Host} {rest : List Host}
    (found : (s.processes p).threads[k]? =
      some ⟨sender, .sendMarkerMessageToPeers (peer :: rest)⟩) :
    Sound D ((s.setBacklog peer (s.backlog peer ++ [p])).setProcess p
      (((s.processes p).note (.markerSent peer)).goOn k
        ⟨sender, .sendMarkerMessageToPeers (peer :: rest)⟩
        (.sendMarkerMessageToPeers rest))) := by
  have knows := (h.turns p).knows found
  have captured : captures (s.processes p).log = 1 := by
    cases sender with
    | none => exact knows.2.1
    | some sender => exact knows.1
  have h' : Sound D (s.setBacklog peer (s.backlog peer ++ [p])) :=
    h.setBacklog fun _ => h.asked p (Or.inr (Or.inr captured))
  refine h'.goOn found rfl (captures_concat (s.processes p).log _) ((h.turns p).send found)
    ((h.announces p).send captured found fun there => (h.turns p).sends_alone found there) ?_
  have noted : Records D p ((s.processes p).note (.markerSent peer)) :=
    (h.records p).note rfl (fun _ => rfl) fun _ => rfl
  exact noted.of_same rfl rfl rfl

/-- **Every step keeps the invariant.** -/
theorem Sound.step (h : Sound D s) {e : Event Host Text State} (taken : s.step D e = some s') :
    Sound D s' := by
  cases System.stepCases_of_step taken with
  | accept waiting => exact h.accept waiting
  | @initiate p k found unlocked =>
      exact h.goOn found rfl rfl ((h.turns p).initiate found)
        ((h.announces p).goOn found rfl (fun _ => rfl) le_rfl nofun)
        ((h.records p).of_same rfl rfl rfl)
  | @firstMarker p k sender found unlocked first =>
      exact h.goOn found rfl rfl ((h.turns p).first found unlocked first)
        ((h.announces p).goOn found rfl (fun _ => rfl) le_rfl nofun)
        ((h.records p).of_same rfl rfl rfl)
  | @laterMarker p k sender found later =>
      exact h.goOn found rfl rfl ((h.turns p).later found later)
        ((h.announces p).goOn found rfl (fun _ => rfl) le_rfl nofun)
        ((h.records p).of_same rfl rfl rfl)
  | capture found => exact h.capture found
  | sendMarker found => exact h.send found
  | @returned p k found =>
      exact h.goOn found rfl rfl ((h.turns p).returned found)
        ((h.announces p).goOn found rfl (fun _ => rfl) le_rfl nofun)
        ((h.records p).of_same rfl rfl rfl)
  | @returnedToMarker p k sender found =>
      exact h.goOn found rfl rfl ((h.turns p).returnedToMarker found)
        ((h.announces p).goOn found rfl (fun _ => rfl) le_rfl nofun)
        ((h.records p).of_same rfl rfl rfl)
  | @handle p k sender found unlocked =>
      have captured := ((h.turns p).knows found).1
      have same : captures ((s.processes p).log ++ [Action.markerHandled sender]) =
          captures (s.processes p).log := captures_concat _ _
      exact h.goOn found rfl same ((h.turns p).handle found)
        ((h.announces p).goOn found rfl (fun peer => markersTo_concat peer _ _) (le_of_eq same.symm)
          nofun) (((h.records p).handle captured sender).of_same rfl rfl rfl)
  | @record p sender text service unlocked recorded =>
      obtain ⟨service', called, _, flag, _, _⟩ :=
        (h.records p).mapped.recordIncomingMessages sender text
      rw [recorded] at called
      cases called
      have same : captures ((s.processes p).log ++ [Action.recordIncomingMessages sender text]) =
          captures (s.processes p).log := captures_concat _ _
      refine h.setProcess ((h.turns p).of_same rfl flag same)
        ((h.announces p).of_same id (fun peer => markersTo_concat peer _ _) same)
        ((h.records p).record recorded) (le_of_eq same.symm) fun some => Or.inl ?_
      apply h.asked p
      rcases some with marker | captured
      · exact Or.inr (Or.inl marker)
      · exact Or.inr (Or.inr (same.symm.trans captured))

theorem sound_of_reachable (reach : Reach (System.step D) Always (System.initial D) s) :
    Sound D s :=
  reach.invariant (sound_initial D) fun _ _ _ h _ taken => h.step taken

/-! ## A snapshot -/

theorem Deployment.count_allPeers_le (D : Deployment Host) (p peer : Host) :
    (D.allPeers p).count peer ≤ 1 :=
  List.nodup_iff_count_le_one.mp (D.nodup.filter _) peer

theorem Deployment.mem_channelsToRecord {first : Option Host} {c : Host} :
    c ∈ D.channelsToRecord p first ↔ c ∈ D.allPeers p ∧ first ≠ some c := by
  rw [Deployment.channelsToRecord, List.mem_filter]
  refine and_congr_right fun _ => decide_eq_true_iff.trans ?_
  exact ne_comm

def threeHosts : Deployment ℕ where
  hostnames := [0, 1, 2]
  nodup := by decide
  initiator := 0
  known := by decide

def initiating : List (Event ℕ ℕ Unit) :=
  [.threadStep 0 0 (), .threadStep 0 0 (), .sendMarker 0 0, .sendMarker 0 0, .threadStep 0 0 ()]

/-- Host 1 handles the marker of 0, with a message of each peer on the way. -/
def firstMarkerOf1 : List (Event ℕ ℕ Unit) :=
  [.accept 1 0, .threadStep 1 0 (), .threadStep 1 0 (), .sendMarker 1 0, .sendMarker 1 0,
    .threadStep 1 0 (), .recordIncomingMessages 1 2 7, .recordIncomingMessages 1 0 8,
    .threadStep 1 0 ()]

/-- Host 2 handles the marker of 0, and host 1 then the one of 2, with a message of it before
and one after. -/
def secondMarkerOf1 : List (Event ℕ ℕ Unit) :=
  [.accept 2 0, .threadStep 2 0 (), .threadStep 2 0 (), .sendMarker 2 0, .sendMarker 2 0,
    .accept 1 0, .threadStep 1 1 (), .recordIncomingMessages 1 2 9, .threadStep 1 1 (),
    .recordIncomingMessages 1 2 10]

theorem markerRun_through : (replay (System.step threeHosts) (System.initial threeHosts)
    (initiating ++ firstMarkerOf1 ++ secondMarkerOf1)).isSome = true := by
  decide +kernel

def snapshotOf1 : System ℕ ℕ Unit :=
  (replay (System.step threeHosts) (System.initial threeHosts)
    (initiating ++ firstMarkerOf1 ++ secondMarkerOf1)).get markerRun_through

end GroupComm.Lab1.Snapshot
