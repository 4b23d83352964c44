import GroupComm.Lab2.LocalInvariant
import GroupComm.Library.Session

/-!
# The protocol on one connection

The roles that a process plays at its end of a connection, what may be on the way to either
end while the two play their roles (`Joint`), and what a role makes of the message that it
sends (`Sends`) or reads (`Reads`).

* A member of a group reads requests and views from its leader and answers the requests, of
  which at most one is unanswered (`joined`).
* After the crash of a leader the new one is told the pending request on a connection of its
  own, and becomes the leader there.
* A process that waits for a new leader takes whoever connects for it, also a new process
  that looks for a leader; then both wait (`mistaken`).
-/

namespace GroupComm.Lab2

open MembershipService

inductive Role where
  /-- Has a leader at the other end, and requests to answer. -/
  | member (answering : List RequestId)
  /-- Expects a `NewLeaderMsg`. -/
  | greets
  /-- Has read it. -/
  | answers
  /-- Has connected in a takeover. -/
  | introduces
  /-- Has sent a `NewLeaderMsg` and expects the pending request. -/
  | asks
  /-- Has a member at the other end, and requests sent to it without an answer. -/
  | leads (owed : List RequestId)
  deriving DecidableEq

/-- What a leader sends to its members. -/
def Msg.toMember : Msg → Bool
  | request _ => true
  | newView _ => true
  | _ => false

def Msg.isOk : Msg → Bool
  | ok _ => true
  | _ => false

def requestIds (inbox : List Msg) : List RequestId :=
  inbox.filterMap fun
    | .request m => some m.requestId
    | _ => none

def okIds (inbox : List Msg) : List RequestId :=
  inbox.filterMap fun
    | .ok m => some m.requestId
    | _ => none

/-- Two roles, the one under the other's lead first, and what is on the way to them. -/
inductive Joint : Role → Role → List Msg → List Msg → Prop
  | joined {answering owed inbox inbox'} (toMember : ∀ m ∈ inbox, m.toMember = true)
    (toLeader : ∀ m ∈ inbox', m.isOk = true)
    (unanswered : (okIds inbox' ++ answering ++ requestIds inbox).Sublist owed) :
    Joint (.member answering) (.leads owed) inbox inbox'
  | mistaken : Joint .greets (.member []) [] []
  | connected : Joint .greets .introduces [] []
  | introduced (m : NewLeaderMsg) : Joint .greets .asks [.newLeader m] []
  | greeted : Joint .answers .asks [] []
  | answered (m : RequestMsg) : Joint (.member []) .asks [] [.request m]

inductive Sends : Role → Msg → Role → Prop
  | request (m : RequestMsg) : Sends (.leads []) (.request m) (.leads [m.requestId])
  | newView (m : NewViewMsg) (owed : List RequestId) :
    Sends (.leads owed) (.newView m) (.leads owed)
  | ok (m : OkMsg) : Sends (.member [m.requestId]) (.ok m) (.member [])
  | newLeader (m : NewLeaderMsg) : Sends .introduces (.newLeader m) .asks
  | pendingRequest (m : RequestMsg) : Sends .answers (.request m) (.member [])

inductive Reads : Role → Msg → Role → Prop
  | request (m : RequestMsg) : Reads (.member []) (.request m) (.member [m.requestId])
  | newView (m : NewViewMsg) : Reads (.member []) (.newView m) (.member [])
  | ok (m : OkMsg) : Reads (.leads [m.requestId]) (.ok m) (.leads [])
  | newLeader (m : NewLeaderMsg) : Reads .greets (.newLeader m) .answers
  | pendingRequest (m : RequestMsg) : Reads .asks (.request m) (.leads [])

/-- The roles that wait for a message. -/
def Role.awaits : Role → Prop
  | member answering => answering = []
  | greets => True
  | asks => True
  | leads owed => ∃ requestId, owed = [requestId]
  | _ => False

/-! ## Steps of the two roles -/

@[simp] theorem requestIds_append (inbox inbox' : List Msg) :
    requestIds (inbox ++ inbox') = requestIds inbox ++ requestIds inbox' :=
  List.filterMap_append

@[simp] theorem okIds_append (inbox inbox' : List Msg) :
    okIds (inbox ++ inbox') = okIds inbox ++ okIds inbox' :=
  List.filterMap_append

section

variable {R R₂ R' : Role} {m : Msg} {inbox inbox' : List Msg}

/-- What the first role sends goes to the second inbox. -/
theorem Joint.send_first (h : Joint R R' inbox inbox') (sends : Sends R m R₂) :
    Joint R₂ R' inbox (inbox' ++ [m]) := by
  cases sends with
  | ok m =>
      cases h with
      | joined toMember toLeader unanswered =>
          refine .joined toMember ?_ ?_
          · intro m' mem
            rcases List.mem_append.mp mem with before | new
            · exact toLeader m' before
            · rw [List.mem_singleton.mp new]
              rfl
          · rw [okIds_append, List.append_nil]
            exact unanswered
  | pendingRequest m =>
      cases h with
      | greeted => exact .answered m
  | request m => cases h
  | newView m owed => cases h
  | newLeader m => cases h

/-- What the second role sends goes to the first inbox. -/
theorem Joint.send_second (h : Joint R' R inbox' inbox) (sends : Sends R m R₂) :
    Joint R' R₂ (inbox' ++ [m]) inbox := by
  cases sends with
  | request m =>
      cases h with
      | joined toMember toLeader unanswered =>
          refine .joined ?_ toLeader ?_
          · intro m' mem
            rcases List.mem_append.mp mem with before | new
            · exact toMember m' before
            · rw [List.mem_singleton.mp new]
              rfl
          · rw [requestIds_append, ← List.append_assoc, List.eq_nil_of_sublist_nil unanswered]
            exact List.Sublist.refl _
  | newView m owed =>
      cases h with
      | joined toMember toLeader unanswered =>
          refine .joined ?_ toLeader ?_
          · intro m' mem
            rcases List.mem_append.mp mem with before | new
            · exact toMember m' before
            · rw [List.mem_singleton.mp new]
              rfl
          · rw [requestIds_append]
            change (_ ++ (_ ++ [])).Sublist owed
            rw [List.append_nil]
            exact unanswered
  | newLeader m =>
      cases h with
      | connected => exact .introduced m
  | ok m => cases h
  | pendingRequest m => cases h

/-- The first role reads what is expected, and goes on. -/
theorem Joint.read_first (h : Joint R R' (m :: inbox) inbox') (reads : Reads R m R₂) :
    Joint R₂ R' inbox inbox' := by
  cases reads with
  | request m =>
      cases h with
      | joined toMember toLeader unanswered =>
          refine .joined (fun m' mem => toMember m' (List.mem_cons_of_mem _ mem)) toLeader ?_
          rw [List.append_nil] at unanswered
          rw [List.append_assoc]
          exact unanswered
  | newView m =>
      cases h with
      | joined toMember toLeader unanswered =>
          exact .joined (fun m' mem => toMember m' (List.mem_cons_of_mem _ mem)) toLeader
            unanswered
  | newLeader m =>
      cases h with
      | introduced => exact .greeted
  | ok m => cases h
  | pendingRequest m => cases h

theorem Joint.read_second (h : Joint R' R inbox' (m :: inbox)) (reads : Reads R m R₂) :
    Joint R' R₂ inbox' inbox := by
  cases reads with
  | ok m =>
      cases h with
      | joined toMember toLeader unanswered =>
          refine .joined toMember (fun m' mem => toLeader m' (List.mem_cons_of_mem _ mem)) ?_
          exact (List.cons_sublist_cons.mp unanswered)
  | pendingRequest m =>
      cases h with
      | answered =>
          exact .joined (fun _ mem => absurd mem List.not_mem_nil)
            (fun _ mem => absurd mem List.not_mem_nil) (List.Sublist.refl _)
  | request m => cases h
  | newView m => cases h
  | newLeader m => cases h

/-- **What is expected.**  The first role, waiting, has only messages in its inbox that it
can read. -/
theorem Joint.expected_first (h : Joint R R' (m :: inbox) inbox') (awaits : R.awaits) :
    ∃ R₂, Reads R m R₂ := by
  cases h with
  | joined toMember toLeader unanswered =>
      change _ = [] at awaits
      subst awaits
      have kind := toMember m List.mem_cons_self
      cases m with
      | request m => exact ⟨_, .request m⟩
      | newView m => exact ⟨_, .newView m⟩
      | ok m => cases kind
      | newLeader m => cases kind
  | introduced m => exact ⟨_, .newLeader m⟩

theorem Joint.expected_second (h : Joint R' R inbox' (m :: inbox)) (awaits : R.awaits) :
    ∃ R₂, Reads R m R₂ := by
  cases h with
  | joined toMember toLeader unanswered =>
      obtain ⟨requestId, owed⟩ := awaits
      subst owed
      have kind := toLeader m List.mem_cons_self
      cases m with
      | ok m =>
          have same : m.requestId = requestId := by
            have mem : m.requestId ∈ [requestId] := unanswered.subset List.mem_cons_self
            exact List.mem_singleton.mp mem
          rw [← same]
          exact ⟨_, .ok m⟩
      | request m => cases kind
      | newView m => cases kind
      | newLeader m => cases kind
  | answered m => exact ⟨_, .pendingRequest m⟩

/-- A message is lost with the process that has read it. -/
theorem Joint.drop_first (h : Joint R R' (m :: inbox) inbox') :
    ∃ Q, Joint Q R' inbox inbox' := by
  cases h with
  | @joined answering owed _ _ toMember toLeader unanswered =>
      refine ⟨.member answering, .joined (fun m' mem => toMember m' (List.mem_cons_of_mem _ mem))
        toLeader (List.Sublist.trans ?_ unanswered)⟩
      exact List.Sublist.append_left ((List.sublist_cons_self m inbox).filterMap _) _
  | introduced => exact ⟨_, .greeted⟩

theorem Joint.drop_second (h : Joint R' R inbox' (m :: inbox)) :
    ∃ Q, Joint R' Q inbox' inbox := by
  cases h with
  | @joined answering owed _ _ toMember toLeader unanswered =>
      refine ⟨.leads owed, .joined toMember (fun m' mem => toLeader m' (List.mem_cons_of_mem _ mem))
        (List.Sublist.trans ?_ unanswered)⟩
      exact (((List.sublist_cons_self m inbox).filterMap _).append_right _).append_right _
  | answered =>
      exact ⟨_, .joined (fun _ mem => absurd mem List.not_mem_nil)
        (fun _ mem => absurd mem List.not_mem_nil) (List.Sublist.refl [])⟩

end

end GroupComm.Lab2
