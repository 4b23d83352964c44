import GroupComm.Library.Transition
import GroupComm.Lab2.ThreadStep

/-!
# The two threads of a leader

One process in `startAsLeader`, its accept loop on the main thread and the callbacks of its
failure detector on the other.  Its peers are not modelled: whatever arrives, any peer may
connect, any peer may be reported, and everything sent or received may fail.

`Leader` keeps the `NewViewMsg`s written to each connection, and the views made: the first one
and one for each time `viewId` is advanced.
-/

namespace GroupComm.Lab2

open MembershipService

structure Leader where
  process : Process
  /-- The number of connections so far. -/
  opened : ℕ
  written : Socket → List NewViewMsg := fun _ => []
  made : List View

inductive LeaderEvent where
  | run (t : Thread)
  | receive (t : Thread) (m : Msg)
  /-- A send or a receive throws. -/
  | fail (t : Thread)
  | accept (newPeerId : PeerId)
  | peerFailure (crashedPeerId : PeerId)

namespace Leader

/-- A process that begins to accept, with the connections it has from a takeover. -/
def start (me : PeerId) (service : MembershipService Socket) (opened : ℕ) : Leader where
  process := { me := me, service := service, main := .accept }
  opened := opened
  made := [service.installedView me]

/-- What has been written, with a further message. -/
def write (s : Leader) (client : Socket) : Msg → Socket → List NewViewMsg
  | .newView m => Function.update s.written client (s.written client ++ [m])
  | _ => s.written

def step (s : Leader) : LeaderEvent → Option Leader
  | .run t =>
      match s.process.effect t with
      | .silent next created =>
          some { s with process := next, made := s.made ++ created.map Creation.view }
      | .send client m sent _ => some { s with process := sent, written := s.write client m }
      | _ => none
  | .receive t m =>
      match s.process.effect t with
      | .receive _ received _ => some { s with process := received m }
      | _ => none
  | .fail t =>
      match s.process.effect t with
      | .send _ _ _ failed => some { s with process := failed }
      | .receive _ _ lost => some { s with process := lost }
      | _ => none
  | .accept newPeerId =>
      match s.process.effect .main with
      | .accept false accepted =>
          some { s with process := accepted ⟨s.opened, false⟩ newPeerId, opened := s.opened + 1 }
      | _ => none
  | .peerFailure crashedPeerId =>
      if s.process.running ∧ s.process.detector = none then
        some { s with process := s.process.handlePeerFailure crashedPeerId }
      else none

end Leader

/-! ## What a step can do -/

inductive LeaderStep (s : Leader) : LeaderEvent → Leader → Prop
  | silent {t created next} (step : ThreadStep s.process t (.silent created) next) :
    LeaderStep s (.run t) { s with process := next, made := s.made ++ created.map Creation.view }
  | sent {t client m next} (step : ThreadStep s.process t (.sent client m) next) :
    LeaderStep s (.run t) { s with process := next, written := s.write client m }
  | received {t client m next} (step : ThreadStep s.process t (.received client m) next) :
    LeaderStep s (.receive t m) { s with process := next }
  | failed {t client m next} (step : ThreadStep s.process t (.failed client m) next) :
    LeaderStep s (.fail t) { s with process := next }
  | lost {t client next} (step : ThreadStep s.process t (.lost client) next) :
    LeaderStep s (.fail t) { s with process := next }
  | accepted {newPeerId next}
      (step : ThreadStep s.process .main (.accepted false ⟨s.opened, false⟩ newPeerId) next) :
    LeaderStep s (.accept newPeerId) { s with process := next, opened := s.opened + 1 }
  | peerFailure {crashedPeerId} (running : s.process.running = true)
      (idle : s.process.detector = none) :
    LeaderStep s (.peerFailure crashedPeerId)
      { s with process := s.process.handlePeerFailure crashedPeerId }

theorem leaderStep_of_step {s s' : Leader} {e : LeaderEvent} (taken : s.step e = some s') :
    LeaderStep s e s' := by
  cases e with
  | run t =>
      rw [Leader.step] at taken
      split at taken
      · rename_i eff
        cases taken
        exact .silent (Process.threadStep_of_gives (eff ▸ .silent))
      · rename_i eff
        cases taken
        exact .sent (Process.threadStep_of_gives (eff ▸ .sent))
      · cases taken
  | receive t m =>
      rw [Leader.step] at taken
      split at taken
      · rename_i client received lost eff
        cases taken
        have gives : (s.process.effect t).Gives (.received client m) (received m) :=
          eff ▸ .received
        exact .received (Process.threadStep_of_gives gives)
      · cases taken
  | fail t =>
      rw [Leader.step] at taken
      split at taken
      · rename_i client m sent failed eff
        cases taken
        have gives : (s.process.effect t).Gives (.failed client m) failed := eff ▸ .failed
        exact .failed (Process.threadStep_of_gives gives)
      · rename_i client received lost eff
        cases taken
        have gives : (s.process.effect t).Gives (.lost client) lost := eff ▸ .lost
        exact .lost (Process.threadStep_of_gives gives)
      · cases taken
  | accept newPeerId =>
      rw [Leader.step] at taken
      split at taken
      · rename_i eff
        cases taken
        exact .accepted (Process.threadStep_of_gives (eff ▸ .accepted))
      · cases taken
  | peerFailure crashedPeerId =>
      rw [Leader.step] at taken
      split at taken
      · rename_i guard
        cases taken
        exact .peerFailure guard.1 guard.2
      · cases taken

end GroupComm.Lab2
