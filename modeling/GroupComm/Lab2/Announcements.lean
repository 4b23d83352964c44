import Mathlib.Data.List.Pairwise
import GroupComm.Lab2.LeaderThreads

/-!
# The views that a leader announces

`modifyGroupMembership` advances `viewId` in one block under `alivePeersMutex` and announces
the view in a second one; in between `sendNewViewMsg` reads `viewId`.  A change of the other
thread that gets in between is announced twice, or with the identifier of the view before it.

* `Serialised`: no thread enters the first block while the other is between the two.
* `inOrder_of_serialised`: then the views written to each connection have increasing
  identifiers, and each has the members with which it was made.
* `announced_twice`: a deletion in between.
-/

namespace GroupComm.Lab2

open MembershipService Transition

namespace Operation

/-- Between the two blocks. -/
def announces : Operation → Bool
  | printNewlyInstalledView => true
  | sendNewViewMsg => true
  | lockView _ => true
  | _ => false

/-- Inside the first block. -/
def modifies : Operation → Bool
  | sendRequestMsg _ _ => true
  | waitForOkMsg _ _ => true
  | _ => false

/-- From the first block to the end of the second. -/
def busy (operation : Operation) : Bool :=
  operation.locked || operation.announces

theorem busy_of_modifies {operation : Operation} (modifies : operation.modifies = true) :
    operation.busy = true := by
  cases operation
  case sendRequestMsg => rfl
  case waitForOkMsg => rfl
  all_goals cases modifies

end Operation

/-- Where the main thread of a leader can stand. -/
def MainState.accepting : MainState → Bool
  | accept => true
  | addPeer _ => true
  | stopped => true
  | _ => false

namespace Process

/-- A thread is about to enter the first block. -/
def entersBlock (pr : Process) (t : Thread) : Bool :=
  match pr.operation t with
  | some (.lock _) => true
  | _ => false

/-- A thread is about to advance the last `viewId`. -/
def overflows (pr : Process) (t : Thread) : Bool :=
  match pr.operation t with
  | some (.waitForOkMsg _ []) => decide (pr.service.viewId + 1 = 0)
  | _ => false

end Process

/-- The message that announces a view. -/
def View.newViewMsg (v : View) : NewViewMsg where
  msgType := MsgTypeEnum.NEW_VIEW.code
  newViewId := v.viewId
  members := v.members.toList

namespace Leader

/-- No thread enters the first block between the two blocks of the other, and `viewId` does
not overflow. -/
def Serialised (s : Leader) : LeaderEvent → Prop
  | .run t =>
      (s.process.entersBlock t = true →
          (s.process.operation t.other).any Operation.announces = false) ∧
        s.process.overflows t = false
  | _ => True

instance decidableSerialised (s : Leader) : ∀ e, Decidable (s.Serialised e)
  | .run _ => inferInstanceAs (Decidable (_ ∧ _))
  | .receive _ _ => inferInstanceAs (Decidable True)
  | .fail _ => inferInstanceAs (Decidable True)
  | .accept _ => inferInstanceAs (Decidable True)
  | .peerFailure _ => inferInstanceAs (Decidable True)

/-- What is announced on each connection. -/
structure InOrder (s : Leader) : Prop where
  increasing : ∀ k, (s.written k).Pairwise fun m m' => m.newViewId < m'.newViewId
  members : ∀ k, ∀ m ∈ s.written k, (∃ v ∈ s.made, v.viewId = m.newViewId) ∧
    ∀ v ∈ s.made, v.viewId = m.newViewId → m.members = v.members.toList

/-- Distinct peers have distinct connections, all of them made before. -/
structure Separate (service : MembershipService Socket) (opened : ℕ) : Prop where
  distinct : ∀ p q k, service.tcpClientMap p = some k → service.tcpClientMap q = some k → p = q
  known : ∀ p k, service.tcpClientMap p = some k → k.connection < opened

theorem Separate.insertClient {service : MembershipService Socket} {opened : ℕ}
    (h : Separate service opened) (newPeerId : PeerId) :
    Separate (service.insertClient newPeerId ⟨opened, false⟩) (opened + 1) := by
  have old {p : PeerId} (found : service.tcpClientMap p = some ⟨opened, false⟩) : False :=
    Nat.lt_irrefl _ (h.known p _ found)
  refine ⟨?_, ?_⟩
  · intro p q k at_p at_q
    rcases insertClient_cases at_p with old_p | ⟨rfl, rfl⟩
    · rcases insertClient_cases at_q with old_q | ⟨rfl, rfl⟩
      · exact h.distinct p q k old_p old_q
      · exact (old old_p).elim
    · rcases insertClient_cases at_q with old_q | ⟨rfl, _⟩
      · exact (old old_q).elim
      · rfl
  · intro p k found
    rcases insertClient_cases found with before | ⟨_, rfl⟩
    · exact Nat.lt_succ_of_lt (h.known p k before)
    · exact Nat.lt_succ_self _

/-! ## What has been written and made -/

structure Recorded (s : Leader) : Prop where
  separate : Separate s.process.service s.opened
  unused : ∀ k : Socket, s.opened ≤ k.connection → s.written k = []
  latest : ∃ v, s.made.getLast? = some v ∧ v.viewId = s.process.service.viewId
  made : s.made.Pairwise fun v v' => v.viewId < v'.viewId
  announced : ∀ k, ∀ m ∈ s.written k, ∃ v ∈ s.made, m = v.newViewMsg
  increasing : ∀ k, (s.written k).Pairwise fun m m' => m.newViewId < m'.newViewId

/-- The current view has not been written to a connection. -/
def Awaits (s : Leader) (k : Socket) : Prop :=
  ∀ m ∈ s.written k, m.newViewId < s.process.service.viewId

theorem Recorded.inOrder {s : Leader} (h : s.Recorded) : s.InOrder where
  increasing := h.increasing
  members := by
    intro k m mem
    obtain ⟨v, made, rfl⟩ := h.announced k m mem
    refine ⟨⟨v, made, rfl⟩, ?_⟩
    intro v' made' same
    have distinct : s.made.Pairwise fun v v' => v.viewId ≠ v'.viewId :=
      h.made.imp fun less => ne_of_lt less
    have symmetric : Std.Symm fun v v' : View => v.viewId ≠ v'.viewId :=
      ⟨fun _ _ ne => ne.symm⟩
    have unique : v' = v := by
      by_contra apart
      exact distinct.forall made' made apart same
    rw [unique]
    rfl

/-- No view made is later than the current one. -/
theorem Recorded.le_viewId {s : Leader} (h : s.Recorded) {v : View} (mem : v ∈ s.made) :
    v.viewId ≤ s.process.service.viewId := by
  obtain ⟨last, latest, same⟩ := h.latest
  obtain ⟨before, made⟩ := List.getLast?_eq_some_iff.mp latest
  rw [← same]
  have increasing := h.made
  rw [made] at mem increasing
  rcases List.mem_append.mp mem with earlier | now
  · exact le_of_lt ((List.pairwise_append.mp increasing).2.2 v earlier last
      (List.mem_singleton.mpr rfl))
  · rw [List.mem_singleton.mp now]

/-- A step that makes no view and announces none. -/
theorem Recorded.of_quiet {s s' : Leader} (h : s.Recorded)
    (viewId : s'.process.service.viewId = s.process.service.viewId)
    (tcpClientMap : ∀ p k, s'.process.service.tcpClientMap p = some k →
      s.process.service.tcpClientMap p = some k)
    (opened : s'.opened = s.opened) (written : s'.written = s.written) (made : s'.made = s.made) :
    s'.Recorded where
  separate := by
    refine ⟨fun p q k at_p at_q => ?_, fun p k at_p => ?_⟩
    · exact h.separate.distinct p q k (tcpClientMap p k at_p) (tcpClientMap q k at_q)
    · rw [opened]
      exact h.separate.known p k (tcpClientMap p k at_p)
  unused := by
    rw [opened, written]
    exact h.unused
  latest := by
    rw [made, viewId]
    exact h.latest
  made := by
    rw [made]
    exact h.made
  announced := by
    rw [written, made]
    exact h.announced
  increasing := by
    rw [written]
    exact h.increasing

/-- The next view is made. -/
theorem Recorded.advance {s s' : Leader} {v : View} (h : s.Recorded)
    (fits : s.process.service.viewId + 1 ≠ 0)
    (viewId : s'.process.service.viewId = s.process.service.viewId + 1)
    (tcpClientMap : s'.process.service.tcpClientMap = s.process.service.tcpClientMap)
    (opened : s'.opened = s.opened) (written : s'.written = s.written)
    (made : s'.made = s.made ++ [v]) (now : v.viewId = s'.process.service.viewId) :
    s'.Recorded ∧ ∀ k, s'.Awaits k := by
  have less : s.process.service.viewId < s'.process.service.viewId := by
    rw [viewId]
    exact UInt32.lt_iff_toNat_lt.mpr (by
      have bound := s.process.service.viewId.toNat_lt
      have positive : (s.process.service.viewId + 1).toNat ≠ 0 := fun zero =>
        fits (UInt32.toNat_inj.mp zero)
      rw [UInt32.toNat_add] at positive ⊢
      change (_ + 1) % _ ≠ 0 at positive
      change _ < (_ + 1) % _
      omega)
  refine ⟨⟨?_, ?_, ⟨v, ?_, now⟩, ?_, ?_, ?_⟩, ?_⟩
  · exact ⟨by rw [tcpClientMap]; exact h.separate.distinct,
      by rw [tcpClientMap, opened]; exact h.separate.known⟩
  · rw [opened, written]
    exact h.unused
  · rw [made, List.getLast?_append]
    rfl
  · rw [made, List.pairwise_append]
    refine ⟨h.made, List.pairwise_singleton _ _, ?_⟩
    intro v' mem _ new
    rw [List.mem_singleton.mp new, now]
    exact lt_of_le_of_lt (h.le_viewId mem) less
  · intro k m mem
    rw [written] at mem
    obtain ⟨v', before, same⟩ := h.announced k m mem
    exact ⟨v', by rw [made]; exact List.mem_append_left _ before, same⟩
  · rw [written]
    exact h.increasing
  · intro k m mem
    rw [written] at mem
    obtain ⟨v', before, rfl⟩ := h.announced k m mem
    exact lt_of_le_of_lt (h.le_viewId before) less

theorem write_newView (s : Leader) (client : Socket) (m : NewViewMsg) (k : Socket) :
    s.write client (.newView m) k = if k = client then s.written client ++ [m]
      else s.written k :=
  Function.update_apply _ _ _ _

/-- The current view is announced on a connection. -/
theorem Recorded.announce {s : Leader} {v : View} {client : Socket} (h : s.Recorded)
    (known : client.connection < s.opened) (current : s.made.getLast? = some v)
    (now : v.viewId = s.process.service.viewId) (awaits : s.Awaits client) :
    Recorded { s with written := s.write client (.newView v.newViewMsg) } where
  separate := h.separate
  unused := by
    intro k new
    have apart : k ≠ client := by
      rintro rfl
      exact absurd known (Nat.not_lt.mpr new)
    dsimp only
    rw [write_newView, if_neg apart]
    exact h.unused k new
  latest := h.latest
  made := h.made
  announced := by
    intro k m mem
    dsimp only at mem
    rw [write_newView] at mem
    split at mem
    · rcases List.mem_append.mp mem with before | new
      · exact h.announced client m before
      · exact ⟨v, List.mem_of_getLast? current, List.mem_singleton.mp new⟩
    · exact h.announced k m mem
  increasing := by
    intro k
    dsimp only
    rw [write_newView]
    split
    · rw [List.pairwise_append]
      refine ⟨h.increasing client, List.pairwise_singleton _ _, ?_⟩
      intro m mem m' new
      rw [List.mem_singleton.mp new]
      exact lt_of_lt_of_eq (awaits m mem) now.symm
    · exact h.increasing k

/-! ## Where the threads stand -/

/-- What a thread has still to announce. -/
def Owes (s : Leader) : Operation → Prop
  | .printNewlyInstalledView => ∀ k, s.Awaits k
  | .sendNewViewMsg => ∀ k, s.Awaits k
  | .lockView newViewId => newViewId = s.process.service.viewId ∧ ∀ k, s.Awaits k
  | .deliver newViewMsg rest =>
      newViewMsg = (s.process.service.installedView s.process.me).newViewMsg ∧ rest.Nodup ∧
        ∀ p ∈ rest, ∀ k, s.process.service.tcpClientMap p = some k → s.Awaits k
  | _ => True

theorem owes_of_idle {s : Leader} {operation : Operation} (idle : operation.busy = false) :
    s.Owes operation := by
  cases operation
  case printNewlyInstalledView => cases idle
  case sendNewViewMsg => cases idle
  case lockView => cases idle
  case deliver => cases idle
  all_goals exact trivial

theorem owes_congr {s s' : Leader} (service : s'.process.service = s.process.service)
    (me : s'.process.me = s.process.me) (written : s'.written = s.written)
    (operation : Operation) : s'.Owes operation ↔ s.Owes operation := by
  unfold Owes Awaits
  rw [service, me, written]

structure Ordered (s : Leader) : Prop where
  recorded : s.Recorded
  leads : s.process.main = .accept ∨ (∃ operation, s.process.main = .addPeer operation) ∨
    s.process.main = .stopped ∧ s.process.detector = none
  /-- One thread at a time is between the first block and the end of the second. -/
  alone : ∀ t t' operation operation', s.process.operation t = some operation →
    s.process.operation t' = some operation' → operation.busy = true →
      operation'.busy = true → t' = t
  /-- The last view made is the current one, except inside the first block. -/
  current : s.process.main ≠ .stopped →
    (∀ t operation, s.process.operation t = some operation → operation.modifies = false) →
      s.made.getLast? = some (s.process.service.installedView s.process.me)
  owes : ∀ t operation, s.process.operation t = some operation → s.Owes operation

/-- A process that has ended. -/
theorem Ordered.of_stopped {s s' : Leader} (h : s.Ordered)
    (process : s'.process = s.process.terminate) (opened : s'.opened = s.opened)
    (written : s'.written = s.written) (made : s'.made = s.made) : s'.Ordered := by
  have ended : ∀ t, s'.process.operation t = none := by
    intro t
    rw [process]
    cases t <;> rfl
  refine ⟨h.recorded.of_quiet ?_ ?_ opened written made, ?_, ?_, ?_, ?_⟩
  · rw [process]
    rfl
  · rw [process]
    exact fun _ _ found => found
  · rw [process]
    exact Or.inr (Or.inr ⟨rfl, rfl⟩)
  · intro t t' operation operation' place
    rw [ended t] at place
    cases place
  · intro running
    rw [process] at running
    exact absurd rfl running
  · intro t operation place
    rw [ended t] at place
    cases place

/-- The other thread is idle when a thread is busy. -/
theorem Ordered.idle {s : Leader} (h : s.Ordered) {t t' : Thread}
    {operation operation' : Operation} (place : s.process.operation t = some operation)
    (busy : operation.busy = true) (apart : t' ≠ t)
    (place' : s.process.operation t' = some operation') : operation'.busy = false := by
  rw [← Bool.not_eq_true]
  intro busy'
  exact apart (h.alone t t' operation operation' place place' busy busy')

theorem Ordered.running {s : Leader} (h : s.Ordered) {t : Thread} {operation : Operation}
    (place : s.process.operation t = some operation) : s.process.main ≠ .stopped := by
  intro stopped
  rcases h.leads with accepts | ⟨_, adds⟩ | ⟨_, idle⟩
  · rw [stopped] at accepts
    cases accepts
  · rw [stopped] at adds
    cases adds
  · rcases Process.operation_cases place with ⟨_, here⟩ | ⟨_, here⟩ | ⟨_, here⟩
    · rw [stopped] at here
      cases here
    · rw [stopped] at here
      cases here
    · rw [idle] at here
      cases here

/-- The data of `mid`, with a thread at its next place. -/
def goTo (mid : Leader) (next : Operation) (t : Thread) : Leader :=
  { mid with process := mid.process.setOperation next t }

theorem owes_goTo {mid : Leader} {next operation : Operation} {t : Thread} :
    (mid.goTo next t).Owes operation ↔ mid.Owes operation := by
  apply owes_congr
  · exact Process.service_setOperation _ _ _
  · exact Process.me_setOperation _ _ _
  · rfl

/-- A step of a thread to another place in `modifyGroupMembership`. -/
theorem Ordered.setOperation {s mid : Leader} (h : s.Ordered) {t : Thread}
    {operation next : Operation} (place : s.process.operation t = some operation)
    (main : mid.process.main = s.process.main) (detector : mid.process.detector = s.process.detector)
    (recorded : mid.Recorded)
    (alone : next.busy = true → ∀ operation', s.process.operation t.other = some operation' →
      operation'.busy = false)
    (current : next.modifies = false →
      (∀ operation', s.process.operation t.other = some operation' →
        operation'.modifies = false) →
        mid.made.getLast? = some (mid.process.service.installedView mid.process.me))
    (owes : mid.Owes next)
    (others : ∀ operation', s.process.operation t.other = some operation' →
      mid.Owes operation') : (mid.goTo next t).Ordered := by
  have moved := fun t' => Process.operation_setOperation place main detector next t'
  have apart {t' : Thread} (ne : t' ≠ t) : t' = t.other := Thread.eq_other ne
  refine ⟨recorded.of_quiet ?_ ?_ rfl rfl rfl, ?_, ?_, ?_, ?_⟩
  · exact congrArg _ (Process.service_setOperation _ _ _)
  · intro p k found
    change (mid.process.setOperation next t).service.tcpClientMap p = _ at found
    rwa [Process.service_setOperation] at found
  · unfold goTo
    dsimp only
    rcases Process.operation_cases place with ⟨rfl, here⟩ | ⟨rfl, here⟩ | ⟨rfl, _⟩
    · rw [Process.setOperation_addPeer (main.trans here)]
      exact Or.inr (Or.inl ⟨next, rfl⟩)
    · have leads := h.leads
      rw [here] at leads
      rcases leads with accepts | ⟨_, adds⟩ | ⟨stopped, _⟩
      · cases accepts
      · cases adds
      · cases stopped
    · change mid.process.main = _ ∨ (∃ _, mid.process.main = _) ∨ mid.process.main = _ ∧ _
      rw [main]
      rcases h.leads with accepts | adds | stopped
      · exact Or.inl accepts
      · exact Or.inr (Or.inl adds)
      · exact absurd stopped.1 (h.running place)
  · intro t₁ t₂ operation₁ operation₂ place₁ place₂ busy₁ busy₂
    change (mid.process.setOperation next t).operation t₁ = _ at place₁
    change (mid.process.setOperation next t).operation t₂ = _ at place₂
    rw [moved] at place₁ place₂
    split at place₁
    · rename_i same₁
      cases place₁
      split at place₂
      · rename_i same₂
        rw [same₁, same₂]
      · rename_i ne
        rw [apart ne] at place₂
        rw [alone busy₁ _ place₂] at busy₂
        cases busy₂
    · rename_i ne
      split at place₂
      · cases place₂
        rw [apart ne] at place₁
        rw [alone busy₂ _ place₁] at busy₁
        cases busy₁
      · exact h.alone t₁ t₂ _ _ place₁ place₂ busy₁ busy₂
  · intro _ idle
    change ∀ t' operation', (mid.process.setOperation next t).operation t' = _ → _ at idle
    unfold goTo
    dsimp only
    rw [Process.service_setOperation, Process.me_setOperation]
    apply current
    · apply idle t next
      rw [moved, if_pos rfl]
    · intro operation' place'
      apply idle t.other operation'
      rw [moved, if_neg t.other_ne]
      exact place'
  · intro t' operation' place'
    change (mid.process.setOperation next t).operation t' = _ at place'
    apply owes_goTo.mpr
    rw [moved] at place'
    split at place'
    · cases place'
      exact owes
    · rename_i ne
      rw [apart ne] at place'
      exact others _ place'

/-- A step that leaves the view and the connections alone. -/
theorem Ordered.goOn {s : Leader} (h : s.Ordered) {t : Thread} {operation next : Operation}
    (place : s.process.operation t = some operation)
    (busy : next.busy = true → operation.busy = true)
    (modifies : operation.modifies = true → next.modifies = true) (owes : s.Owes next) :
    (s.goTo next t).Ordered := by
  refine h.setOperation place rfl rfl h.recorded ?_ ?_ owes fun _ place' => h.owes _ _ place'
  · intro now operation' place'
    exact h.idle place (busy now) t.other_ne place'
  · intro ended others
    apply h.current (h.running place)
    · intro t' operation' place'
      by_cases same : t' = t
      · rw [same, place] at place'
        cases place'
        rw [← Bool.not_eq_true]
        intro before
        rw [modifies before] at ended
        cases ended
      · rw [Thread.eq_other same] at place'
        exact others operation' place'

/-! ## The steps -/

theorem Ordered.call {s : Leader} (h : s.Ordered) {t : Thread} {peerId : PeerId}
    {operationType : OperationTypeEnum}
    (place : s.process.operation t = some (.call peerId operationType)) :
    (goTo { s with process := { s.process with service := s.process.service.countRequest } }
      (.lock (s.process.service.createRequestMsg peerId operationType)) t).Ordered := by
  refine h.setOperation place rfl rfl (h.recorded.of_quiet rfl (fun _ _ found => found) rfl rfl rfl)
    (fun busy => by cases busy) ?_ trivial fun _ place' => h.owes _ _ place'
  intro _ others
  apply h.current (h.running place)
  intro t' operation' place'
  by_cases same : t' = t
  · rw [same, place] at place'
    cases place'
    rfl
  · rw [Thread.eq_other same] at place'
    exact others operation' place'

/-- A thread enters the first block while the other is neither in a block nor between two. -/
theorem Ordered.enter {s : Leader} (h : s.Ordered) {t : Thread} {m : RequestMsg}
    (place : s.process.operation t = some (.lock m)) (free : s.process.lockTaken t = false)
    (apart : (s.process.operation t.other).any Operation.announces = false) (rest : List PeerId) :
    (goTo { s with process := s.process.beginOperation m } (.sendRequestMsg m rest) t).Ordered := by
  have idle : ∀ operation', s.process.operation t.other = some operation' →
      operation'.busy = false := by
    intro operation' place'
    rw [place'] at apart
    have unlocked := Process.locked_eq_false_of_free free t.other_ne place'
    unfold Operation.busy
    rw [unlocked]
    exact apart
  refine h.setOperation place rfl rfl (h.recorded.of_quiet ?_ ?_ rfl rfl rfl) (fun _ => idle)
    (fun modifies => by cases modifies) trivial fun _ place' => owes_of_idle (idle _ place')
  · change (s.process.service.beginModification _ _).viewId = _
    unfold beginModification
    split
    · rfl
    · rfl
  · intro p k found
    change (s.process.service.beginModification _ _).tcpClientMap p = _ at found
    unfold beginModification at found
    split at found
    · dsimp only at found
      rw [Function.update_apply] at found
      split at found
      · cases found
      · exact found
    · exact found

/-- The new view. -/
theorem Ordered.newView {s : Leader} (h : s.Ordered) {t : Thread} {m : RequestMsg}
    (place : s.process.operation t = some (.waitForOkMsg m []))
    (fits : s.process.service.viewId + 1 ≠ 0) :
    (goTo { s with
        process := s.process.endOperation m
        made := s.made ++ [(s.process.creation m).view] } .printNewlyInstalledView t).Ordered := by
  have idle : ∀ operation', s.process.operation t.other = some operation' →
      operation'.busy = false := by
    intro operation' place'
    exact h.idle place rfl t.other_ne place'
  let made : Leader :=
    { s with
      process := s.process.endOperation m
      made := s.made ++ [(s.process.creation m).view] }
  have advanced : made.Recorded ∧ ∀ k, made.Awaits k :=
    h.recorded.advance fits rfl rfl rfl rfl rfl rfl
  obtain ⟨recorded, awaits⟩ := advanced
  refine h.setOperation place rfl rfl recorded (fun _ => idle) ?_ awaits
    fun _ place' => owes_of_idle (idle _ place')
  intro _ _
  rw [List.getLast?_append]
  rfl

/-- The view is announced to one more peer. -/
theorem Ordered.deliver {s : Leader} (h : s.Ordered) {t : Thread} {m : NewViewMsg}
    {p : PeerId} {rest : List PeerId} {client : Socket}
    (place : s.process.operation t = some (.deliver m (p :: rest)))
    (found : s.process.service.tcpClientMap p = some client) :
    (goTo { s with written := s.write client (.newView m) } (.deliver m rest) t).Ordered := by
  have idle : ∀ operation', s.process.operation t.other = some operation' →
      operation'.busy = false := by
    intro operation' place'
    exact h.idle place rfl t.other_ne place'
  obtain ⟨same, nodup, awaits⟩ := h.owes t _ place
  have current := h.current (h.running place) (by
    intro t' operation' place'
    by_cases here : t' = t
    · rw [here, place] at place'
      cases place'
      rfl
    · rw [Thread.eq_other here] at place'
      rw [← Bool.not_eq_true]
      intro modifies
      have busy := Operation.busy_of_modifies modifies
      rw [idle operation' place'] at busy
      cases busy)
  have recorded := h.recorded.announce (h.recorded.separate.known p client found) current rfl
    (awaits p List.mem_cons_self client found)
  rw [← same] at recorded
  refine h.setOperation place rfl rfl recorded (fun _ => idle) (fun _ _ => current) ?_
    fun _ place' => owes_of_idle (idle _ place')
  rw [List.nodup_cons] at nodup
  refine ⟨same, nodup.2, ?_⟩
  intro p' mem k found'
  have apart : k ≠ client := by
    rintro rfl
    have joint := h.recorded.separate.distinct p p' k found found'
    rw [joint] at nodup
    exact nodup.1 mem
  intro m' mem'
  dsimp only at mem'
  rw [write_newView, if_neg apart] at mem'
  exact awaits p' (List.mem_cons_of_mem _ mem) k found' m' mem'

/-- A step after which no thread stands anywhere new. -/
theorem Ordered.of_fewer {s s' : Leader} (h : s.Ordered) (recorded : s'.Recorded)
    (leads : s'.process.main = .accept ∨ ∃ operation, s'.process.main = .addPeer operation)
    (operation : ∀ t operation, s'.process.operation t = some operation →
      s.process.operation t = some operation ∨ operation.busy = false)
    (current : (∀ t operation, s'.process.operation t = some operation →
        operation.modifies = false) →
      s'.made.getLast? = some (s'.process.service.installedView s'.process.me))
    (owes : ∀ operation, s.Owes operation → s'.Owes operation) : s'.Ordered := by
  refine ⟨recorded, ?_, ?_, fun _ => current, ?_⟩
  · rcases leads with accepts | adds
    · exact Or.inl accepts
    · exact Or.inr (Or.inl adds)
  · intro t t' operation₁ operation₂ place₁ place₂ busy₁ busy₂
    rcases operation t operation₁ place₁ with before₁ | idle
    · rcases operation t' operation₂ place₂ with before₂ | idle
      · exact h.alone t t' _ _ before₁ before₂ busy₁ busy₂
      · rw [idle] at busy₂
        cases busy₂
    · rw [idle] at busy₁
      cases busy₁
  · intro t operation' place
    rcases operation t operation' place with before | idle
    · exact owes _ (h.owes t _ before)
    · exact owes_of_idle idle

theorem Ordered.finish {s : Leader} (h : s.Ordered) {t : Thread} {m : NewViewMsg}
    (place : s.process.operation t = some (.deliver m [])) :
    Ordered { s with process := s.process.finishOperation t } := by
  have fields : (s.process.finishOperation t).service = s.process.service ∧
      ((s.process.finishOperation t).main = .accept ∨
        ∃ operation, (s.process.finishOperation t).main = .addPeer operation) := by
    rcases Process.operation_cases place with ⟨rfl, main⟩ | ⟨rfl, main⟩ | ⟨rfl, detector⟩
    · rw [Process.finishOperation_addPeer main]
      exact ⟨rfl, Or.inl rfl⟩
    · rcases h.leads with accepts | ⟨_, adds⟩ | ⟨stopped, _⟩
      · rw [main] at accepts
        cases accepts
      · rw [main] at adds
        cases adds
      · exact absurd stopped (h.running place)
    · refine ⟨rfl, ?_⟩
      rcases h.leads with accepts | adds | ⟨stopped, _⟩
      · exact Or.inl accepts
      · exact Or.inr adds
      · exact absurd stopped (h.running place)
  obtain ⟨service, leads⟩ := fields
  have me := Process.me_finishOperation s.process t
  have moved := Process.operation_finishOperation place
  refine h.of_fewer (h.recorded.of_quiet ?_ ?_ rfl rfl rfl) leads ?_ ?_ ?_
  · exact congrArg _ service
  · intro p k found
    dsimp only at found
    rwa [service] at found
  · intro t' operation place'
    dsimp only at place'
    rw [moved] at place'
    split at place'
    · cases place'
    · exact Or.inl place'
  · intro none
    dsimp only at none ⊢
    rw [service, me]
    apply h.current (h.running place)
    intro t' operation place'
    by_cases here : t' = t
    · rw [here, place] at place'
      cases place'
      rfl
    · apply none t'
      rw [moved, if_neg here]
      exact place'
  · intro operation owes
    apply (owes_congr _ _ _ operation).mpr owes
    · exact service
    · exact me
    · rfl

/-- A peer connects. -/
theorem Ordered.accept {s : Leader} (h : s.Ordered) (place : s.process.main = .accept)
    (newPeerId : PeerId) :
    Ordered
      { s with
        process :=
          { s.process with
            service := s.process.service.insertClient newPeerId ⟨s.opened, false⟩
            main := .addPeer (.call newPeerId .ADD) }
        opened := s.opened + 1 } := by
  have recorded : Recorded
      { s with
        process :=
          { s.process with
            service := s.process.service.insertClient newPeerId ⟨s.opened, false⟩
            main := .addPeer (.call newPeerId .ADD) }
        opened := s.opened + 1 } :=
    ⟨h.recorded.separate.insertClient newPeerId, fun k new =>
      h.recorded.unused k (Nat.le_of_succ_le new), h.recorded.latest, h.recorded.made,
      h.recorded.announced, h.recorded.increasing⟩
  refine h.of_fewer recorded (Or.inr ⟨_, rfl⟩) ?_ ?_ ?_
  · intro t operation place'
    cases t with
    | main =>
        cases place'
        exact Or.inr rfl
    | detector => exact Or.inl place'
  · intro none
    apply h.current (by rw [place]; exact fun same => by cases same)
    intro t operation place'
    cases t with
    | main =>
        unfold Process.operation at place'
        dsimp only at place'
        rw [place] at place'
        cases place'
    | detector => exact none .detector operation place'
  · intro operation owes
    cases operation
    case printNewlyInstalledView => exact owes
    case sendNewViewMsg => exact owes
    case lockView => exact owes
    case deliver m rest =>
      obtain ⟨same, nodup, awaits⟩ := owes
      refine ⟨same, nodup, ?_⟩
      intro p mem k found
      rcases insertClient_cases found with before | ⟨_, rfl⟩
      · exact awaits p mem k before
      · intro m' mem'
        dsimp only at mem'
        rw [h.recorded.unused ⟨s.opened, false⟩ (Nat.le_refl _)] at mem'
        cases mem'
    all_goals trivial

/-- The failure detector calls. -/
theorem Ordered.peerFailure {s : Leader} (h : s.Ordered) (running : s.process.running = true)
    (idle : s.process.detector = none) (crashedPeerId : PeerId) :
    Ordered { s with process := s.process.handlePeerFailure crashedPeerId } := by
  have leads : s.process.main = .accept ∨ ∃ operation, s.process.main = .addPeer operation := by
    rcases h.leads with accepts | adds | ⟨stopped, _⟩
    · exact Or.inl accepts
    · exact Or.inr adds
    · rw [Process.running, stopped] at running
      cases running
  have alive : s.process.main ≠ .stopped := by
    rw [Process.running, decide_eq_true_iff] at running
    exact running
  have detector_idle : ∀ operation, s.process.operation .detector ≠ some operation := by
    intro operation place
    change s.process.detector = _ at place
    rw [idle] at place
    cases place
  unfold Process.handlePeerFailure
  split
  · refine h.of_fewer (h.recorded.of_quiet rfl (fun _ _ found => found) rfl rfl rfl) leads ?_ ?_
      fun _ owes => owes
    · intro t operation place
      cases t with
      | main => exact Or.inl place
      | detector =>
          cases place
          exact Or.inr rfl
    · intro none
      apply h.current alive
      intro t operation place
      cases t with
      | main => exact none .main operation place
      | detector => exact absurd place (detector_idle operation)
  · split
    · exact h.of_fewer (h.recorded.of_quiet rfl (fun _ _ found => found) rfl rfl rfl) leads
        (fun _ _ place => Or.inl place) (fun none => h.current alive none) fun _ owes => owes
    · exact h

/-- The main thread of a leader stands nowhere else. -/
theorem Ordered.elsewhere {s : Leader} (h : s.Ordered) {main : MainState}
    (place : s.process.main = main) (apart : main.accepting = false) : False := by
  rcases h.leads with accepts | ⟨_, adds⟩ | ⟨stopped, _⟩
  · rw [← place, accepts] at apart
    cases apart
  · rw [← place, adds] at apart
    cases apart
  · rw [← place, stopped] at apart
    cases apart

/-- A silent step of a thread. -/
theorem Ordered.silent {s : Leader} (h : s.Ordered) {t : Thread} {created : List Creation}
    {next : Process} (serialised : s.Serialised (.run t))
    (step : ThreadStep s.process t (.silent created) next) :
    Ordered { s with process := next, made := s.made ++ created.map Creation.view } := by
  obtain ⟨apart, fits⟩ := serialised
  cases step
  case newView m place =>
    apply h.newView place
    unfold Process.overflows at fits
    rw [place] at fits
    exact of_decide_eq_false fits
  all_goals try rw [List.map_nil, List.append_nil]
  case dies fatal =>
    cases fatal
    rw [List.map_nil, List.append_nil]
    exact h.of_stopped rfl rfl rfl rfl
  case call place => exact h.call place
  case lock m place free =>
    apply h.enter place free
    apply apart
    unfold Process.entersBlock
    rw [place]
  case requestsSent place =>
    exact h.goOn place (fun _ => rfl) (fun _ => rfl) trivial
  case printNewlyInstalledView place free =>
    have awaits : ∀ k, s.Awaits k := h.owes t _ place
    exact h.goOn place (fun _ => rfl) (fun modifies => by cases modifies) awaits
  case sendNewViewMsg place =>
    exact h.goOn place (fun _ => rfl) (fun modifies => by cases modifies)
      ⟨rfl, h.owes t _ place⟩
  case lockView newViewId place free =>
    obtain ⟨rfl, awaits⟩ := h.owes t _ place
    exact h.goOn place (fun _ => rfl) (fun modifies => by cases modifies)
      ⟨rfl, s.process.service.alivePeers.nodup, fun _ _ k _ => awaits k⟩
  case delivered place => exact h.finish place
  case skipMyself place => exact (h.elsewhere place rfl).elim
  case noLeaderFound place => exact (h.elsewhere place rfl).elim
  case startAsLeader place _ => exact (h.elsewhere place rfl).elim
  case waitForLeaderCrash place _ => exact (h.elsewhere place rfl).elim
  case handleLeaderCrash place _ => exact (h.elsewhere place rfl).elim
  case reconnected place => exact (h.elsewhere place rfl).elim
  case notConnected place _ => exact (h.elsewhere place rfl).elim
  case completeRequest place _ => exact (h.elsewhere place rfl).elim
  case nothingPending place _ => exact (h.elsewhere place rfl).elim

end Leader

/-- **A step.**  Unless a thread gets between the two blocks of the other, the views stay in
order. -/
theorem LeaderStep.ordered {s s' : Leader} {e : LeaderEvent} (step : LeaderStep s e s')
    (h : s.Ordered) (serialised : s.Serialised e) : s'.Ordered := by
  cases step with
  | silent step => exact h.silent serialised step
  | sent step =>
      cases step
      case dies fatal => exact fatal.elim
      case sendRequestMsg place _ =>
        exact h.goOn place (fun _ => rfl) (fun _ => rfl) trivial
      case deliver place found => exact h.deliver place found
      case sendOkMsg place _ => exact (h.elsewhere place rfl).elim
      case introduce place => exact (h.elsewhere place rfl).elim
      case sendPendingRequestMsg place _ => exact (h.elsewhere place rfl).elim
  | received step =>
      cases step
      case dies _ => exact h.of_stopped rfl rfl rfl rfl
      case waitForOkMsg place _ =>
        exact h.goOn place (fun _ => rfl) (fun _ => rfl) trivial
      case followerReceives place _ _ => exact (h.elsewhere place rfl).elim
      case pendingRequest place _ => exact (h.elsewhere place rfl).elim
      case greet place => exact (h.elsewhere place rfl).elim
  | failed step =>
      cases step
      case dies _ => exact h.of_stopped rfl rfl rfl rfl
      case okMsgFailed place _ => exact (h.elsewhere place rfl).elim
      case introduceFailed place => exact (h.elsewhere place rfl).elim
  | lost step =>
      cases step
      case dies _ => exact h.of_stopped rfl rfl rfl rfl
      case leaderLost place _ => exact (h.elsewhere place rfl).elim
  | accepted step =>
      cases step
      case dies fatal => exact fatal.elim
      case accept place => exact h.accept place _
  | peerFailure running idle => exact h.peerFailure running idle _

theorem ordered_start {me : PeerId} {service : MembershipService Socket} {opened : ℕ}
    (separate : Leader.Separate service opened) : (Leader.start me service opened).Ordered where
  recorded :=
    { separate := separate
      unused := fun _ _ => rfl
      latest := ⟨_, rfl, rfl⟩
      made := List.pairwise_singleton _ _
      announced := by
        intro k m mem
        cases mem
      increasing := fun _ => .nil }
  leads := Or.inl rfl
  alone := by
    intro t t' operation operation' place
    cases t with
    | main => cases place
    | detector => cases place
  current := fun _ _ => rfl
  owes := by
    intro t operation place
    cases t with
    | main => cases place
    | detector => cases place

/-- **The views are announced in order** in every run of the two threads in which neither gets
between the two blocks of the other: on each connection with increasing identifiers, and with
the members of the view that was made with the identifier. -/
theorem inOrder_of_serialised {me : PeerId} {service : MembershipService Socket} {opened : ℕ}
    {s : Leader} (separate : Leader.Separate service opened)
    (reach : Reach Leader.step Leader.Serialised (Leader.start me service opened) s) :
    s.InOrder := by
  have ordered : s.Ordered := by
    refine reach.invariant (ordered_start separate) ?_
    intro s e s' before serialised taken
    exact (leaderStep_of_step taken).ordered before serialised
  exact ordered.recorded.inOrder

/-! ## A deletion between the two blocks

A leader on host 1 that has added host 2 adds host 3.  Before it announces the view, host 2 is
reported, and both threads announce the view without host 2 to host 3. -/

def runs (t : Thread) (n : ℕ) : List LeaderEvent :=
  List.replicate n (.run t)

def okMsg (requestId : RequestId) : Msg :=
  .ok ⟨MsgTypeEnum.OK.code, requestId, 0⟩

/-- Host 2 is added, and host 3 up to the end of the first block. -/
def addingThirdRun : List LeaderEvent :=
  [.accept 2] ++ runs .main 9 ++ [.accept 3] ++ runs .main 4 ++ [.receive .main (okMsg 3)] ++
  runs .main 1

def racingRun : List LeaderEvent :=
  addingThirdRun ++ [.peerFailure 2] ++ runs .detector 4 ++ [.receive .detector (okMsg 4)] ++
  runs .detector 6 ++ runs .main 4

def serialRun : List LeaderEvent :=
  addingThirdRun ++ runs .main 6 ++ [.peerFailure 2] ++ runs .detector 4 ++
  [.receive .detector (okMsg 4)] ++ runs .detector 5

theorem separate_default (me : PeerId) :
    Leader.Separate ({ leaderPeerId := me } : MembershipService Socket) 0 where
  distinct := by
    intro _ _ _ found
    cases found
  known := by
    intro _ _ found
    cases found

theorem serialRun_through :
    (replay Leader.step (Leader.start 1 { leaderPeerId := 1 } 0) serialRun).isSome = true := by
  decide +kernel

theorem inOrder_of_serialised_serial :
    ((replay Leader.step (Leader.start 1 { leaderPeerId := 1 } 0) serialRun).get
      serialRun_through).InOrder :=
  inOrder_of_serialised (separate_default 1) (.of_isSome (by decide +kernel) serialRun_through)

theorem racingRun_through :
    (replay Leader.step (Leader.start 1 { leaderPeerId := 1 } 0) racingRun).isSome = true := by
  decide +kernel

/-- **Announced twice.**  Host 3 is sent two views with the identifier 4. -/
theorem announced_twice :
    ¬ ∀ (me : PeerId) (service : MembershipService Socket) (opened : ℕ) (s : Leader),
      Leader.Separate service opened →
      Reach Leader.step Always (Leader.start me service opened) s → s.InOrder := by
  intro always
  have inOrder := always 1 _ 0 _ (separate_default 1)
    (.of_isSome (allowedAlong_always _ _) racingRun_through)
  have twice := inOrder.increasing ⟨1, false⟩
  revert twice
  decide +kernel

end GroupComm.Lab2
