import GroupComm.Lab1.Progress

/-!
# Integrity of the multicast

Only messages that were multicast are delivered, under every network
(`genuine_of_delivered`).  A message is delivered once for each time it was accepted.  A copy
of a `DataMessage` that arrives after `markDeliverable` has taken its identifier out of
`pendingMsgSet` is accepted again, and a copy of the `SeqMessage` then delivers it again
(`duplicate_delivery`).  Without such late copies a message is delivered at most once
(`integrity`).
-/

namespace GroupComm.Lab1

open Transition

namespace System

variable {Host : Type} [DecidableEq Host] {D : Deployment Host} {s s' : System Host}

/-- A `DataMessage` that is handed to a host that has accepted it before is still pending
there. -/
def Timely (s : System Host) : Option (Host × Packet) → Prop
  | some (p, .data m) =>
      m.ident ∈ s.acceptedIdents p → m.ident ∈ (s.service p).holdBackQueue.pendingMsgSet
  | _ => True

instance (s : System Host) : ∀ handled, Decidable (s.Timely handled)
  | some (_, .data _) => inferInstanceAs (Decidable (_ → _))
  | some (_, .ack _) => .isTrue trivial
  | some (_, .seq _) => .isTrue trivial
  | some (_, .seqAck _) => .isTrue trivial
  | none => .isTrue trivial

/-- No copy of a `DataMessage` arrives after its identifier has left `pendingMsgSet`. -/
def NoLateData (s : System Host) (e : Event Host) : Prop := s.Timely (s.incoming e)

instance (s : System Host) (e : Event Host) : Decidable (s.NoLateData e) :=
  inferInstanceAs (Decidable (s.Timely _))

theorem acceptedIdents_commit (p q : Host) (o : Outcome Host) :
    (s.commit p o).acceptedIdents q =
      s.acceptedIdents q ++ if p = q then o.accepted.map (·.1) else [] := by
  rw [acceptedIdents, acceptedIdents, commit_accepted, List.filter_append, List.map_append,
    List.append_cancel_left_eq, List.filter_map, List.map_map]
  split
  · rename_i same
    rw [List.filter_eq_self.mpr (by simp [same])]
    rfl
  · rename_i apart
    rw [List.filter_eq_nil_iff.mpr (by simp [apart])]
    rfl

/-- Without late copies no host accepts a message twice. -/
theorem Progress.nodup_acceptedIdents {handled : Option (Host × Packet)}
    (progress : Progress D handled s s') (timely : s.Timely handled) {q : Host}
    (nodup : (s.acceptedIdents q).Nodup) : (s'.acceptedIdents q).Nodup := by
  cases progress with
  | quiet same _ =>
      rw [acceptedIdents, same.accepted]
      exact nodup
  | @accept p src m eq _ new eq' =>
      subst eq eq'
      rw [acceptedIdents_commit]
      split
      · rename_i same
        subst same
        refine List.nodup_append.mpr ⟨nodup, by simp [acceptance], fun a ha b hb => ?_⟩
        simp only [acceptance, List.map_cons, List.map_nil, List.mem_singleton] at hb
        rintro rfl
        exact new (timely (hb ▸ ha))
      · rwa [List.append_nil]
  | choose same _ =>
      rw [acceptedIdents, same.accepted]
      exact nodup
  | finish _ _ _ eq' =>
      subst eq'
      rw [acceptedIdents_commit]
      simpa [finishing] using nodup

theorem nodup_acceptedIdents (reach : Reach (step D) NoLateData (initial Host) s) (p : Host) :
    (s.acceptedIdents p).Nodup := by
  refine Reach.invariant_with (P := fun s => (s.acceptedIdents p).Nodup) (Q := Sound D)
    (fun s h => sound_of_reachable h.always) (by simp [acceptedIdents, initial])
    (fun s e s' sound nodup timely taken => ?_) reach
  obtain ⟨t, _, same, _, progress⟩ := sound.progress taken
  have idents : t.acceptedIdents = s.acceptedIdents := by
    funext q
    rw [acceptedIdents, acceptedIdents, same.accepted]
  refine progress.nodup_acceptedIdents (?_ : t.Timely (s.incoming e)) (by rwa [idents])
  unfold NoLateData Timely at timely
  unfold Timely
  simpa only [idents, same.queue] using timely

/-- The messages delivered at a host were multicast by the hosts they name. -/
theorem genuine_of_delivered (reachable : s.Reachable D) {p : Host} (hp : p ∈ D.hostnames) :
    ∀ m ∈ s.delivered p, s.Genuine D m :=
  fun m hm => (((sound_of_reachable reachable).receiver p hp).delivered m hm).1

/-- **Integrity**, as far as no late copy of a `DataMessage` arrives: every message is
delivered at most once, and only as it was multicast. -/
theorem integrity (D : Deployment Host) {s : System Host}
    (reach : Reach (step D) NoLateData (initial Host) s) {p : Host} (hp : p ∈ D.hostnames) :
    ((s.delivered p).map (·.ident)).Nodup ∧
      ∀ m ∈ s.delivered p, ∃ q ∈ D.hostnames,
        D.processIdentifier q = m.sender ∧ m ∈ s.multicasts q := by
  refine ⟨?_, fun m hm => genuine_of_delivered reach.always hp m hm⟩
  have balance := ((sound_of_reachable reach.always).receiver p hp).balance
  have nodup := balance.nodup_iff.mpr (nodup_acceptedIdents reach p)
  exact (List.nodup_append.mp nodup).1

end System

/-- A message is sent twice to each host, and each host handles one copy of the `DataMessage`
and of the `SeqMessage`; what is left over is lost. -/
def timelyRun : List (Event Bool) :=
  [.multicast false 7, .sendData false 0 false, .sendData false 0 true, .sendData false 0 true,
    .receive false false 0 false, .receive false true 0 false, .lose false true 0,
    .receive false false 0 false, .receive true false 0 false,
    .sendSeq false 0 true, .sendSeq false 0 true, .receive false true 0 false,
    .receive false true 0 false]

theorem integrity_timelyRun :
    ∃ s : System Bool, (s.delivered true = [⟨1, 1, 1, 7⟩]) ∧
      ((s.delivered true).map (·.ident)).Nodup ∧
      ∀ m ∈ s.delivered true, ∃ q ∈ twoHosts.hostnames,
        twoHosts.processIdentifier q = m.sender ∧ m ∈ s.multicasts q :=
  ⟨(replay (System.step twoHosts) (System.initial Bool) timelyRun).get (by decide +kernel),
    by decide +kernel,
    System.integrity twoHosts (Reach.of_isSome (by decide +kernel) _) (by decide)⟩

/-- The same message, but the second copy of the `DataMessage` arrives after the message has
been delivered, and a second copy of the `SeqMessage` after that. -/
def lateRun : List (Event Bool) :=
  [.multicast false 7, .sendData false 0 false, .sendData false 0 true, .sendData false 0 true,
    .receive false false 0 false, .receive false true 0 false,
    .receive false false 0 false, .receive true false 0 false,
    .sendSeq false 0 true, .sendSeq false 0 true,
    -- the `SeqMessage` overtakes the `DataMessage` that was sent before it
    .receive false true 1 false, .receive false true 0 false, .receive false true 0 false]

/-- The state in which `lateRun` ends. -/
def redelivered : System Bool :=
  (replay (System.step twoHosts) (System.initial Bool) lateRun).get (by decide +kernel)

/-- The second host delivers the message twice. -/
theorem duplicate_delivery :
    ¬ ∀ s : System Bool, s.Reachable twoHosts → ∀ p ∈ twoHosts.hostnames,
      ((s.delivered p).map (·.ident)).Nodup ∧
        ∀ m ∈ s.delivered p, ∃ q ∈ twoHosts.hostnames,
          twoHosts.processIdentifier q = m.sender ∧ m ∈ s.multicasts q := by
  intro claim
  have reachable : redelivered.Reachable twoHosts := Reach.of_isSome (allowedAlong_always _ _) _
  have twice : (redelivered.delivered true).map (·.ident) = [⟨1, 1⟩, ⟨1, 1⟩] := by
    decide +kernel
  have once := (claim redelivered reachable true (by decide)).1
  rw [twice] at once
  exact absurd once (by decide)

end GroupComm.Lab1
