import GroupComm.Lab2.Admission

/-!
# Who is elected

The candidates of `handleLeaderCrash` are the hosts that the failure detector hears of, and
not the members of the group.  A host whose process has not been admitted can therefore be
elected: one that is not in the view, or one that has been started again.

* `elected_member_iff`: when exactly the elected leader is a surviving member of the last view.
* `joining_host_elected`: a leader crashes while it adds a host with the smallest identifier,
  and the remaining member elects that host.
-/

namespace GroupComm.Lab2

open MembershipService World Transition

/-! ## The election -/

/-- The hosts on which a process runs. -/
def World.upHosts (s : World) : OrderedSet PeerId :=
  OrderedSet.ofList (((List.range s.started).filter fun i => (s.processes i).running).map
    fun i => (s.processes i).me)

theorem World.isUp_iff {s : World} {p : PeerId} : s.isUp p = true ↔ p ∈ s.upHosts := by
  unfold World.isUp upHosts
  simp only [List.any_eq_true, OrderedSet.mem_ofList, List.mem_map, List.mem_filter,
    Bool.and_eq_true, decide_eq_true_iff]
  constructor
  · rintro ⟨i, known, me, running⟩
    exact ⟨i, ⟨known, running⟩, me⟩
  · rintro ⟨i, ⟨known, running⟩, me⟩
    exact ⟨i, known, me, running⟩

/-- The failure detector of a process knows exactly the other running hosts. -/
def World.Accurate (s : World) (i : ProcId) : Prop :=
  (s.processes i).heartBeats.getAlivePeers = s.upHosts.erase (s.processes i).me

instance (s : World) (i : ProcId) : Decidable (s.Accurate i) :=
  inferInstanceAs (Decidable (_ = _))

/-- The leader that `handleLeaderCrash` elects at a process. -/
def Process.elects (pr : Process) : PeerId :=
  nextLeader pr.me pr.heartBeats.getAlivePeers

theorem elects_least {s : World} {i : ProcId} (up : s.isUp (s.processes i).me = true)
    (accurate : s.Accurate i) :
    s.isUp (s.processes i).elects = true ∧
      ∀ p, s.isUp p = true → (s.processes i).elects ≤ p := by
  have candidate : ∀ p, p = (s.processes i).me ∨ p ∈ (s.processes i).heartBeats.getAlivePeers ↔
      s.isUp p = true := by
    intro p
    rw [accurate, OrderedSet.mem_erase, ← isUp_iff]
    constructor
    · rintro (rfl | ⟨other, _⟩)
      · exact up
      · exact other
    · intro running
      by_cases same : p = (s.processes i).me
      · exact Or.inl same
      · exact Or.inr ⟨running, same⟩
  obtain ⟨mem, leMe, least⟩ := nextLeader_eq_iff.mp (rfl : (s.processes i).elects = _)
  refine ⟨(candidate _).mp mem, fun p running => ?_⟩
  rcases (candidate p).mpr running with rfl | other
  · exact leMe
  · exact least p other

/-- View `v`, which `l` gave in `s₀`, has admitted a process on host `p`, and this process runs. -/
def World.Survives (s₀ s : World) (l : ProcId) (v : View) (p : PeerId) : Prop :=
  p ∈ v.members ∧ ∃ j ∈ s₀.memberProcess l p, (s.processes j).running = true

/-- A surviving member is up. -/
theorem Given.isUp_of_survives {hosts : List PeerId} {s₀ s : World} {l i : ProcId} {v : View}
    (h : Given hosts s₀ s l i v) {p : PeerId} (survives : s₀.Survives s l v p) :
    s.isUp p = true := by
  obtain ⟨_, j, member, running⟩ := survives
  obtain ⟨known, me⟩ := h.me_memberProcess member
  exact List.any_eq_true.mpr ⟨j, List.mem_range.mpr known, by simp [running, me]⟩

/-- **Election.**  With an accurate failure detector the leader that a member elects is a surviving
member of the last view that the member has installed, exactly when every host that runs a process
which is none has a larger identifier than some surviving member. -/
theorem elected_member_iff {hosts : List PeerId} {s : World}
    (reach : Reach (World.step hosts) Always {} s) {i : ProcId} {v : View}
    (chooses : (s.processes i).main = .handleLeaderCrash)
    (last : (s.processes i).installed.getLast? = some v) (accurate : s.Accurate i) :
    (∃ s₀ l, Given hosts s₀ s l i v) ∧
      ∀ s₀ l, Given hosts s₀ s l i v →
        (s₀.Survives s l v (s.processes i).elects ↔
          ∀ h, s.isUp h = true → ¬ s₀.Survives s l v h →
            ∃ m, s₀.Survives s l v m ∧ m < h) := by
  have up : s.isUp (s.processes i).me = true := by
    have running : (s.processes i).running = true := by
      rw [Process.running, chooses]
      rfl
    have known := (wired_of_reachable reach).started i running
    exact List.any_eq_true.mpr ⟨i, List.mem_range.mpr known, by simp [running]⟩
  obtain ⟨elected, least⟩ := elects_least up accurate
  refine ⟨exists_given reach (List.mem_of_getLast? last), fun s₀ l given => ?_⟩
  constructor
  · intro survives h running outside
    refine ⟨_, survives, lt_of_le_of_ne (least h running) ?_⟩
    rintro rfl
    exact outside survives
  · intro smaller
    by_contra outside
    obtain ⟨m, survives, less⟩ := smaller _ elected outside
    exact absurd (least m (given.isUp_of_survives survives)) (not_le.mpr less)

/-! ## A host that is joining is elected

Host 2 leads host 3.  Host 1 connects, and host 2 crashes when it has sent host 3 the request
to add it. -/

def joiningRun : List Event :=
  [.start 2] ++ mainSteps 0 7 ++
  [.start 3] ++ mainSteps 1 2 ++ mainSteps 0 10 ++ mainSteps 1 1 ++
  [.start 1] ++ mainSteps 2 2 ++ mainSteps 0 4 ++ mainSteps 1 2 ++
  [.heartBeat 1 2, .crash 0] ++ mainSteps 1 1 ++
  [.tick 1 [2], .tick 1 [2], .heartBeat 1 1, .tick 1 [1, 2]] ++ mainSteps 1 1

theorem joiningRun_through : (replay (World.step [1, 2, 3, 4, 5]) {} joiningRun).isSome = true := by
  decide +kernel

def joiningState : World :=
  (replay (World.step [1, 2, 3, 4, 5]) {} joiningRun).get joiningRun_through

theorem joiningState_reachable : Reach (World.step [1, 2, 3, 4, 5]) Always {} joiningState :=
  .of_isSome (allowedAlong_always _ _) joiningRun_through

theorem joiningState_facts :
    (joiningState.processes 1).main = .handleLeaderCrash ∧
      (joiningState.processes 1).installed.getLast? = some ⟨2, OrderedSet.ofList [2, 3]⟩ ∧
      joiningState.Accurate 1 ∧ (joiningState.processes 1).elects = 1 := by
  decide +kernel

theorem elected_member_iff_joining :
    (∃ s₀ l, Given [1, 2, 3, 4, 5] s₀ joiningState l 1 ⟨2, OrderedSet.ofList [2, 3]⟩) ∧
      ∀ s₀ l, Given [1, 2, 3, 4, 5] s₀ joiningState l 1 ⟨2, OrderedSet.ofList [2, 3]⟩ →
        (s₀.Survives joiningState l ⟨2, OrderedSet.ofList [2, 3]⟩
            (joiningState.processes 1).elects ↔
          ∀ h, joiningState.isUp h = true →
            ¬ s₀.Survives joiningState l ⟨2, OrderedSet.ofList [2, 3]⟩ h →
              ∃ m, s₀.Survives joiningState l ⟨2, OrderedSet.ofList [2, 3]⟩ m ∧ m < h) :=
  elected_member_iff joiningState_reachable joiningState_facts.1 joiningState_facts.2.1
    joiningState_facts.2.2.1

/-- **An outsider is elected.**  Host 3, whose group was hosts 2 and 3, elects host 1. -/
theorem joining_host_elected :
    ¬ ∀ (hosts : List PeerId) (s : World) (i : ProcId) (v : View),
      Reach (World.step hosts) Always {} s →
      (s.processes i).main = .handleLeaderCrash →
      (s.processes i).installed.getLast? = some v → s.Accurate i →
        (s.processes i).elects ∈ v.members := by
  intro always
  obtain ⟨chooses, last, accurate, elects⟩ := joiningState_facts
  have elected := always _ _ _ _ joiningState_reachable chooses last accurate
  rw [elects] at elected
  revert elected
  decide

end GroupComm.Lab2
