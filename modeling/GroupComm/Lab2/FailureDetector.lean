import GroupComm.Library.OrderedSet
import GroupComm.Lab2.Message
import GroupComm.Library.Transition

/-!
# The failure detector

`peerHeartBeatMap` and the two threads that change it: a heartbeat sets the count of its
sender to two, a tick counts every peer down and reports one whose count was zero.  The
iteration order of the `unordered_map` is a parameter of the tick.

A tick ends at the first report, so that a report delays the others.  `timely_of_reachable`
says by how much, for every schedule of heartbeats and ticks.
-/

namespace GroupComm.Lab2

open Transition

/-- `peerHeartBeatMap`: its keys and the count of each of them. -/
structure PeerHeartBeatMap where
  peers : OrderedSet PeerId := ∅
  count : PeerId → Int := fun _ => 0

namespace PeerHeartBeatMap

/-- `startHeartBeatListener`, for a heartbeat of `p`. -/
def receive (m : PeerHeartBeatMap) (p : PeerId) : PeerHeartBeatMap where
  peers := m.peers.insert p
  count := Function.update m.count p 2

/-- `getAlivePeers`. -/
def getAlivePeers (m : PeerHeartBeatMap) : OrderedSet PeerId :=
  m.peers

/-- The loop of `startDetectorThread` with the keys that are left, and the peer it reports.
It ends at the first report. -/
def detect (m : PeerHeartBeatMap) : List PeerId → PeerHeartBeatMap × Option PeerId
  | [] => (m, none)
  | p :: rest =>
      let peerCrashed := m.count p = 0
      let m := { m with count := Function.update m.count p (m.count p - 1) }
      if peerCrashed then ({ m with peers := m.peers.erase p }, some p) else detect m rest

/-- A tick only removes the peer it reports. -/
theorem peers_detect (m : PeerHeartBeatMap) (order : List PeerId) (p : PeerId) :
    p ∈ (m.detect order).1.peers ↔ p ∈ m.peers ∧ (m.detect order).2 ≠ some p := by
  induction order generalizing m with
  | nil => simp [detect]
  | cons q rest ih =>
      unfold detect
      dsimp only
      split
      · simp [OrderedSet.mem_erase, eq_comm]
      · exact ih _

theorem mem_of_detect {m : PeerHeartBeatMap} {order : List PeerId} {p : PeerId}
    (reported : (m.detect order).2 = some p) : p ∈ order := by
  induction order generalizing m with
  | nil => cases reported
  | cons q rest ih =>
      unfold detect at reported
      dsimp only at reported
      split at reported
      · cases reported
        exact List.mem_cons_self
      · exact List.mem_cons_of_mem _ (ih reported)

/-- Nobody can be reported and still be believed alive. -/
theorem notMem_of_detect {m : PeerHeartBeatMap} {order : List PeerId} {p : PeerId}
    (reported : (m.detect order).2 = some p) : p ∉ (m.detect order).1.getAlivePeers := fun mem =>
  ((peers_detect m order p).mp mem).2 reported

/-- A tick leaves the counts of the others alone. -/
theorem count_detect_of_notMem {m : PeerHeartBeatMap} {order : List PeerId} {p : PeerId}
    (notMem : p ∉ order) : (m.detect order).1.count p = m.count p := by
  induction order generalizing m with
  | nil => rfl
  | cons q rest ih =>
      rw [List.mem_cons, not_or] at notMem
      have kept : Function.update m.count q (m.count q - 1) p = m.count p :=
        Function.update_of_ne notMem.1 _ _
      unfold detect
      dsimp only
      split
      · exact kept
      · exact (ih notMem.2).trans kept

/-- What a tick does to the counts: it counts down the peers it comes to before the one that it
reports. -/
theorem count_detect {m : PeerHeartBeatMap} {order : List PeerId} (nodup : order.Nodup) :
    (∀ p ∈ order, (m.detect order).2 = none →
        m.count p ≠ 0 ∧ (m.detect order).1.count p = m.count p - 1) ∧
      (∀ p, (m.detect order).2 = some p → m.count p = 0) ∧
      ∀ p, (m.detect order).2 ≠ some p → (m.detect order).1.count p = m.count p ∨
        m.count p ≠ 0 ∧ (m.detect order).1.count p = m.count p - 1 := by
  induction order generalizing m with
  | nil => exact ⟨fun _ mem => (by cases mem), fun _ reported => (by cases reported),
      fun _ _ => Or.inl rfl⟩
  | cons q rest ih =>
      obtain ⟨notIn, nodup⟩ := List.nodup_cons.mp nodup
      unfold detect
      dsimp only
      split
      · rename_i crashed
        refine ⟨fun _ _ none => (by cases none), ?_, ?_⟩
        · intro p reported
          cases reported
          exact crashed
        · intro p other
          left
          have apart : p ≠ q := fun same => other (by rw [same])
          exact Function.update_of_ne apart _ _
      · rename_i counted
        let next : PeerHeartBeatMap := { m with count := Function.update m.count q (m.count q - 1) }
        have same : ∀ p, p ≠ q → next.count p = m.count p := fun p apart =>
          Function.update_of_ne apart _ _
        have here : next.count q = m.count q - 1 := Function.update_self _ _ _
        obtain ⟨all, crashed, others⟩ := ih (m := next) nodup
        have first : (next.detect rest).1.count q = next.count q := count_detect_of_notMem notIn
        refine ⟨?_, ?_, ?_⟩
        · intro p mem none
          rcases List.mem_cons.mp mem with rfl | later
          · exact ⟨counted, first.trans here⟩
          · have apart : p ≠ q := by
              rintro rfl
              exact notIn later
            rw [← same p apart]
            exact all p later none
        · intro p reported
          have apart : p ≠ q := by
            rintro rfl
            exact notIn (mem_of_detect reported)
          rw [← same p apart]
          exact crashed p reported
        · intro p other
          by_cases apart : p = q
          · subst apart
            exact Or.inr ⟨counted, first.trans here⟩
          · rw [← same p apart]
            exact others p other

end PeerHeartBeatMap

/-! ## Every schedule -/

inductive DetectorEvent where
  /-- A heartbeat of `p` arrives. -/
  | heartBeat (p : PeerId)
  /-- A tick that goes through the map in the given order. -/
  | tick (order : List PeerId)

/-- What has been seen of an event; a tick has reported a peer or nobody. -/
inductive Observation where
  | heartBeat (p : PeerId)
  | tick (reported : Option PeerId)
  deriving DecidableEq

/-- The map, and what has happened so far, the latest first. -/
structure FailureDetector where
  peerHeartBeatMap : PeerHeartBeatMap := {}
  log : List Observation := []

/-- The reports of the ticks since the last heartbeat of `p`, if it has sent one. -/
def ticksSince (p : PeerId) : List Observation → Option (List (Option PeerId))
  | [] => none
  | .heartBeat q :: log => if q = p then some [] else ticksSince p log
  | .tick reported :: log => (ticksSince p log).map (· ++ [reported])

/-- The number of ticks at which another peer than `p` was reported. -/
def otherReports (p : PeerId) (ticks : List (Option PeerId)) : ℕ :=
  ticks.countP fun reported => decide (reported ≠ none ∧ reported ≠ some p)

namespace FailureDetector

def step (d : FailureDetector) : DetectorEvent → Option FailureDetector
  | .heartBeat p =>
      some ⟨d.peerHeartBeatMap.receive p, .heartBeat p :: d.log⟩
  | .tick order =>
      if order.Perm d.peerHeartBeatMap.peers.toList then
        some ⟨(d.peerHeartBeatMap.detect order).1,
          .tick (d.peerHeartBeatMap.detect order).2 :: d.log⟩
      else none

/-- What the failure detector promises of its reports. -/
structure Timely (d : FailureDetector) : Prop where
  counts : ∀ p ∈ d.peerHeartBeatMap.peers, d.peerHeartBeatMap.count p ∈ [(0 : Int), 1, 2]
  unheard : ∀ p, ticksSince p d.log = none → .tick (some p) ∉ d.log
  /-- A report is at least the third tick, and at most the third beside those that report
  another peer. -/
  inTime : ∀ p ticks n, ticksSince p d.log = some ticks → ticks[n]? = some (some p) →
    2 ≤ n ∧ n < 3 + otherReports p (ticks.take n)
  once : ∀ p ticks, ticksSince p d.log = some ticks →
    3 + otherReports p ticks ≤ ticks.length → ticks.count (some p) = 1
  alive : ∀ p, p ∈ d.peerHeartBeatMap.getAlivePeers ↔
    ∃ ticks, ticksSince p d.log = some ticks ∧ some p ∉ ticks

/-- What is known of a peer. -/
inductive Watches (d : FailureDetector) (p : PeerId) : Prop
  | unheard (never : ticksSince p d.log = none) (unreported : .tick (some p) ∉ d.log)
    (absent : p ∉ d.peerHeartBeatMap.peers)
  | silent (ticks : List (Option PeerId)) (since : ticksSince p d.log = some ticks)
    (unreported : some p ∉ ticks) (present : p ∈ d.peerHeartBeatMap.peers)
    (positive : 0 ≤ d.peerHeartBeatMap.count p) (small : d.peerHeartBeatMap.count p ≤ 2)
    (enough : 2 ≤ d.peerHeartBeatMap.count p + ticks.length)
    (soon : d.peerHeartBeatMap.count p + ticks.length ≤ 2 + otherReports p ticks)
  | reported (before after : List (Option PeerId))
    (since : ticksSince p d.log = some (before ++ some p :: after)) (first : some p ∉ before)
    (last : some p ∉ after) (absent : p ∉ d.peerHeartBeatMap.peers)
    (enough : 2 ≤ before.length) (soon : before.length < 3 + otherReports p before)

theorem otherReports_append (p : PeerId) (ticks ticks' : List (Option PeerId)) :
    otherReports p (ticks ++ ticks') = otherReports p ticks + otherReports p ticks' :=
  List.countP_append

/-- A heartbeat starts the count of its sender again. -/
theorem Watches.heartBeat {d : FailureDetector} {p : PeerId} (h : d.Watches p) (q : PeerId) :
    Watches ⟨d.peerHeartBeatMap.receive q, .heartBeat q :: d.log⟩ p := by
  by_cases same : q = p
  · subst same
    have two : (d.peerHeartBeatMap.receive q).count q = 2 := Function.update_self _ _ _
    refine .silent [] (if_pos rfl) List.not_mem_nil (OrderedSet.mem_insert.mpr (Or.inl rfl)) ?_ ?_
      ?_ ?_
    all_goals
      dsimp only
      rw [two]
    · decide
    · exact Int.le_refl _
    · exact Int.le_refl _
  · have since : ticksSince p (.heartBeat q :: d.log) = ticksSince p d.log := if_neg same
    have peers : p ∈ (d.peerHeartBeatMap.receive q).peers ↔ p ∈ d.peerHeartBeatMap.peers := by
      unfold PeerHeartBeatMap.receive
      rw [OrderedSet.mem_insert]
      exact ⟨fun mem => mem.resolve_left fun eq => same eq.symm, Or.inr⟩
    have count : (d.peerHeartBeatMap.receive q).count p = d.peerHeartBeatMap.count p :=
      Function.update_of_ne (Ne.symm same) _ _
    cases h with
    | unheard never unreported absent =>
        refine .unheard (since.trans never) ?_ (mt peers.mp absent)
        intro mem
        rcases List.mem_cons.mp mem with eq | mem
        · cases eq
        · exact unreported mem
    | silent ticks before unreported present positive small enough soon =>
        refine .silent ticks (since.trans before) unreported (peers.mpr present) ?_ ?_ ?_ ?_
        all_goals
          dsimp only
          rw [count]
          assumption
    | reported before after now first last absent enough soon =>
        exact .reported before after (since.trans now) first last (mt peers.mp absent) enough soon

/-- A tick. -/
theorem Watches.tick {d : FailureDetector} {p : PeerId} (h : d.Watches p) {order : List PeerId}
    (all : order.Perm d.peerHeartBeatMap.peers.toList) :
    Watches ⟨(d.peerHeartBeatMap.detect order).1,
      .tick (d.peerHeartBeatMap.detect order).2 :: d.log⟩ p := by
  have nodup : order.Nodup := all.nodup_iff.mpr d.peerHeartBeatMap.peers.nodup
  have known : ∀ q, (d.peerHeartBeatMap.detect order).2 = some q →
      q ∈ d.peerHeartBeatMap.peers := fun q reported =>
    all.mem_iff.mp (PeerHeartBeatMap.mem_of_detect reported)
  have peers := PeerHeartBeatMap.peers_detect d.peerHeartBeatMap order p
  obtain ⟨counted, crashed, others⟩ := PeerHeartBeatMap.count_detect (m := d.peerHeartBeatMap) nodup
  generalize (d.peerHeartBeatMap.detect order).1 = next at peers counted others ⊢
  generalize (d.peerHeartBeatMap.detect order).2 = report at known peers counted crashed others ⊢
  have unreported_of_absent (absent : p ∉ d.peerHeartBeatMap.peers) : report ≠ some p :=
    fun now => absent (known p now)
  have since {ticks : List (Option PeerId)} (before : ticksSince p d.log = some ticks) :
      ticksSince p (.tick report :: d.log) = some (ticks ++ [report]) := by
    rw [ticksSince, before]
    rfl
  cases h with
  | unheard never unreported absent =>
      refine .unheard (by rw [ticksSince, never]; rfl) ?_ (fun mem => absent (peers.mp mem).1)
      intro mem
      rcases List.mem_cons.mp mem with eq | mem
      · cases eq
        exact unreported_of_absent absent rfl
      · exact unreported mem
  | silent ticks before unreported present positive small enough soon =>
      by_cases here : report = some p
      · have zero := crashed p here
        subst here
        rw [zero] at enough soon
        exact .reported ticks [] (since before) unreported List.not_mem_nil
          (fun mem => (peers.mp mem).2 rfl) (by omega) (by omega)
      · have still : some p ∉ ticks ++ [report] := by
          rw [List.mem_append, List.mem_singleton]
          rintro (mem | now)
          · exact unreported mem
          · exact here now.symm
        have counts := others p here
        have none_counts := counted p (all.mem_iff.mpr present)
        have more : otherReports p [report] = if report = none then 0 else 1 := by
          unfold otherReports
          cases report with
          | none => rfl
          | some q => simp [here]
        have reports := otherReports_append p ticks [report]
        have length : (ticks ++ [report]).length = ticks.length + 1 := List.length_append
        rw [more] at reports
        have kept : 0 ≤ next.count p ∧ next.count p ≤ 2 ∧ 2 ≤ next.count p + (ticks.length + 1) ∧
            next.count p + (ticks.length + 1) ≤ 2 + otherReports p (ticks ++ [report]) := by
          rw [reports]
          cases report with
          | none =>
              rw [if_pos rfl]
              have counted := none_counts rfl
              omega
          | some q =>
              rw [if_neg (Option.some_ne_none q)]
              push_cast
              omega
        refine .silent (ticks ++ [report]) (since before) still (peers.mpr ⟨present, here⟩) kept.1
          kept.2.1 ?_ ?_
        · rw [length]
          exact_mod_cast kept.2.2.1
        · rw [length]
          exact_mod_cast kept.2.2.2
  | reported before after now first last absent enough soon =>
      have apart := unreported_of_absent absent
      refine .reported before (after ++ [report]) ?_ first ?_ (fun mem => absent (peers.mp mem).1)
        enough soon
      · rw [since now, List.append_assoc]
        rfl
      · rw [List.mem_append, List.mem_singleton]
        rintro (mem | same)
        · exact last mem
        · exact apart same.symm

theorem watches_of_reachable {d : FailureDetector} (reach : Reach step Always {} d) (p : PeerId) :
    d.Watches p := by
  refine reach.invariant (P := fun d => d.Watches p)
    (.unheard rfl List.not_mem_nil (OrderedSet.notMem_empty p)) ?_
  intro d e d' h _ taken
  cases e with
  | heartBeat q =>
      cases taken
      exact h.heartBeat q
  | tick order =>
      rw [step] at taken
      split at taken
      · rename_i all
        cases taken
        exact h.tick all
      · cases taken

/-- **The failure detector**, in every schedule of heartbeats and ticks and every order of
iteration. -/
theorem timely_of_reachable {d : FailureDetector} (reach : Reach step Always {} d) : d.Timely := by
  have watches := watches_of_reachable reach
  constructor
  · intro p mem
    cases watches p with
    | unheard _ _ absent => exact absurd mem absent
    | silent _ _ _ _ positive small _ _ =>
        have cases_count : d.peerHeartBeatMap.count p = 0 ∨ d.peerHeartBeatMap.count p = 1 ∨
            d.peerHeartBeatMap.count p = 2 := by omega
        simpa using cases_count
    | reported _ _ _ _ _ absent _ _ => exact absurd mem absent
  · intro p never
    cases watches p with
    | unheard _ unreported _ => exact unreported
    | silent _ since _ _ _ _ _ _ =>
        rw [since] at never
        cases never
    | reported _ _ since _ _ _ _ _ =>
        rw [since] at never
        cases never
  · intro p ticks n here at_n
    cases watches p with
    | unheard never _ _ =>
        rw [never] at here
        cases here
    | silent _ since unreported _ _ _ _ _ =>
        rw [since] at here
        cases here
        exact absurd (List.mem_of_getElem? at_n) unreported
    | reported before after since first last _ enough soon =>
        rw [since] at here
        cases here
        have same : n = before.length := by
          rcases Nat.lt_trichotomy n before.length with less | same | more
          · rw [List.getElem?_append_left less] at at_n
            exact absurd (List.mem_of_getElem? at_n) first
          · exact same
          · rw [List.getElem?_append_right (Nat.le_of_lt more)] at at_n
            obtain ⟨k, eq⟩ := Nat.exists_eq_succ_of_ne_zero (Nat.sub_ne_zero_of_lt more)
            rw [eq, List.getElem?_cons_succ] at at_n
            exact absurd (List.mem_of_getElem? at_n) last
        subst same
        rw [List.take_left]
        exact ⟨enough, soon⟩
  · intro p ticks here due
    cases watches p with
    | unheard never _ _ =>
        rw [never] at here
        cases here
    | silent _ since _ _ positive _ _ soon =>
        rw [since] at here
        cases here
        omega
    | reported before after since first last _ _ _ =>
        rw [since] at here
        cases here
        rw [List.count_append, List.count_cons_self, List.count_eq_zero_of_not_mem first,
          List.count_eq_zero_of_not_mem last]
  · intro p
    constructor
    · intro mem
      cases watches p with
      | unheard _ _ absent => exact absurd mem absent
      | silent ticks since unreported _ _ _ _ _ => exact ⟨ticks, since, unreported⟩
      | reported _ _ _ _ _ absent _ _ => exact absurd mem absent
    · rintro ⟨ticks, here, unreported⟩
      cases watches p with
      | unheard never _ _ =>
          rw [never] at here
          cases here
      | silent _ _ _ present _ _ _ _ => exact present
      | reported before after since _ _ _ _ _ =>
          rw [since] at here
          cases here
          exact absurd (List.mem_append_right _ List.mem_cons_self) unreported

/-! ## Two peers fall silent, and the first report delays the second -/

def silentPeers : List DetectorEvent :=
  [.heartBeat 2, .heartBeat 3, .tick [2, 3], .tick [3, 2], .tick [2, 3], .tick [3]]

theorem silentPeers_through : (replay step {} silentPeers).isSome = true := by
  decide +kernel

theorem timely_of_reachable_silentPeers :
    ((replay step {} silentPeers).get silentPeers_through).Timely :=
  timely_of_reachable (.of_isSome (allowedAlong_always _ _) silentPeers_through)

end FailureDetector

end GroupComm.Lab2
