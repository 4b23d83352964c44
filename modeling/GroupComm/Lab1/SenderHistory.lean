import GroupComm.Lab1.ContinuousMsgSender
import GroupComm.Library.Obligations

/-!
# The obligations of a `ContinuousMsgSender`

A history lists the calls of `queueMsg` and `removeRecipient`, the latest first.  With distinct
message identifiers, whatever the other arguments are, the list of the sender stands for the
pairs of a message and a recipient that are owed (`refines`).

* `removeRecipient` looks for the message and then for any holder without recipients; that
  there is one holder for each message, and none without recipients, makes both searches end
  at the same holder (`WellFormed`).
-/

namespace GroupComm.Lab1

namespace ContinuousMsgSender

inductive Call (T Host : Type) where
  | queueMsg (message : T)
  | removeRecipient (messageId : UInt32) (recipient : Host)

variable {T Host : Type} [HasMsgId T]

/-- The messages queued, in the order of the calls. -/
def queued : List (Call T Host) → List T
  | [] => []
  | .queueMsg message :: history => queued history ++ [message]
  | .removeRecipient _ _ :: history => queued history

def Call.op : Call T Host → Obligations.Op UInt32 Host
  | queueMsg message => .enter (HasMsgId.msgId message)
  | removeRecipient messageId recipient => .discharge messageId recipient

/-- The pairs that are owed. -/
def owed (recipients : List Host) (history : List (Call T Host)) : Set (UInt32 × Host) :=
  Obligations.owed { r | r ∈ recipients } (history.map Call.op)

variable [DecidableEq Host]

/-- The sender after a history of calls. -/
def after (recipients : List Host) : List (Call T Host) → ContinuousMsgSender T Host
  | [] => {}
  | .queueMsg message :: history => (after recipients history).queueMsg recipients message
  | .removeRecipient messageId recipient :: history =>
      ((after recipients history).removeRecipient messageId recipient).2

/-- How many calls of `removeRecipient` with these arguments have returned true. -/
def removals (recipients : List Host) (id : UInt32) (r : Host) : List (Call T Host) → ℕ
  | [] => 0
  | .queueMsg _ :: history => removals recipients id r history
  | .removeRecipient messageId recipient :: history =>
      (if (messageId, recipient) = (id, r) ∧
          ((after recipients history).removeRecipient messageId recipient).1 = true then 1 else 0) +
        removals recipients id r history

/-- The list stands for the pairs that are owed. -/
structure Refines (recipients : List Host) (history : List (Call T Host)) : Prop where
  stands : ∀ id r, (after recipients history).Owes id r ↔ (id, r) ∈ owed recipients history
  nonempty : ∀ holder ∈ (after recipients history).msgList, holder.recipients.Nonempty
  order : ((after recipients history).msgList.map MsgHolder.orgMsg).Sublist (queued history)
  /-- A holder is there as long as a pair of it is owed. -/
  held : ∀ message ∈ queued history,
    message ∈ (after recipients history).msgList.map MsgHolder.orgMsg ↔
      ∃ r, (HasMsgId.msgId message, r) ∈ owed recipients history
  returns : ∀ id r, ((after recipients history).removeRecipient id r).1 = true ↔
    (id, r) ∈ owed recipients history
  once : ∀ message ∈ queued history, ∀ r ∈ recipients,
    ((HasMsgId.msgId message, r) ∈ owed recipients history →
        removals recipients (HasMsgId.msgId message) r history = 0) ∧
      ((HasMsgId.msgId message, r) ∉ owed recipients history →
        removals recipients (HasMsgId.msgId message) r history = 1)

variable {recipients : List Host} {history : List (Call T Host)}

omit [DecidableEq Host] in
theorem entered_op (history : List (Call T Host)) :
    Obligations.entered (history.map Call.op) = ((queued history).map HasMsgId.msgId).reverse := by
  induction history with
  | nil => rfl
  | cons call history ih =>
      cases call with
      | queueMsg message =>
          unfold queued
          rw [List.map_append, List.reverse_append, ← ih]
          rfl
      | removeRecipient messageId recipient => exact ih

/-- The messages of the list have been queued, in this order. -/
theorem WellFormed.order_removeRecipient {s : ContinuousMsgSender T Host} (wf : s.WellFormed)
    (messageId : UInt32) (recipient : Host) :
    ((s.removeRecipient messageId recipient).2.msgList.map MsgHolder.orgMsg).Sublist
      (s.msgList.map MsgHolder.orgMsg) := by
  rcases wf.removeRecipient_cases messageId recipient with
    ⟨_, eq⟩ | ⟨before, holder, after, split, _, eq⟩
  · rw [eq]
  · rw [eq, split]
    split
    · rw [List.append_nil, List.map_append, List.map_append]
      exact (List.Sublist.refl _).append (List.sublist_cons_self _ _)
    · simp

theorem sublist_queued (distinct : ((queued history).map HasMsgId.msgId).Nodup)
    (nonempty : recipients ≠ []) :
    (after recipients history).WellFormed ∧
      ((after recipients history).msgList.map MsgHolder.orgMsg).Sublist (queued history) := by
  induction history with
  | nil => exact ⟨wellFormed_empty, List.Sublist.refl _⟩
  | cons call history ih =>
      cases call with
      | queueMsg message =>
          unfold queued at distinct
          rw [List.map_append, List.nodup_append] at distinct
          obtain ⟨before, _, apart⟩ := distinct
          obtain ⟨wf, order⟩ := ih before
          refine ⟨wf.queueMsg nonempty ?_, ?_⟩
          · rintro ⟨holder, mem, same⟩
            have old := order.subset (List.mem_map_of_mem mem)
            exact apart _ (List.mem_map_of_mem old) _ (List.mem_singleton_self _) same
          · unfold after queued
            rw [ContinuousMsgSender.queueMsg, List.map_append]
            exact order.append (List.Sublist.refl _)
      | removeRecipient messageId recipient =>
          obtain ⟨wf, order⟩ := ih distinct
          exact ⟨wf.removeRecipient messageId recipient,
            (wf.order_removeRecipient messageId recipient).trans order⟩

theorem owes_after (distinct : ((queued history).map HasMsgId.msgId).Nodup)
    (nonempty : recipients ≠ []) (id : UInt32) (r : Host) :
    (after recipients history).Owes id r ↔ (id, r) ∈ owed recipients history := by
  induction history with
  | nil =>
      constructor
      · rintro ⟨_, mem, _⟩
        cases mem
      · intro mem
        cases mem
  | cons call history ih =>
      cases call with
      | queueMsg message =>
          unfold queued at distinct
          rw [List.map_append, List.nodup_append] at distinct
          have enters := owes_queueMsg (after recipients history) recipients message id r
          rw [ih distinct.1] at enters
          have spec : (id, r) ∈ owed recipients (.queueMsg message :: history) ↔
              (id, r) ∈ owed recipients history ∨ id = HasMsgId.msgId message ∧ r ∈ recipients :=
            Obligations.mem_owed_enter
          rw [spec, eq_comm (a := id)]
          exact enters
      | removeRecipient messageId recipient =>
          have before : ((queued history).map HasMsgId.msgId).Nodup := distinct
          have wf := (sublist_queued before nonempty).1
          have discharges := wf.owes_removeRecipient messageId recipient id r
          rw [ih before] at discharges
          exact discharges.trans Obligations.mem_owed_discharge.symm

theorem removed_after (distinct : ((queued history).map HasMsgId.msgId).Nodup)
    (nonempty : recipients ≠ []) (id : UInt32) (r : Host) :
    ((after recipients history).removeRecipient id r).1 = true ↔
      (id, r) ∈ owed recipients history := by
  have wf := (sublist_queued distinct nonempty).1
  rw [wf.removed_iff, owes_after distinct nonempty]

open Classical in
/-- The calls that have returned true are the discharges that have been met. -/
theorem removals_eq_met (distinct : ((queued history).map HasMsgId.msgId).Nodup)
    (nonempty : recipients ≠ []) (id : UInt32) (r : Host) :
    removals recipients id r history =
      Obligations.met { r | r ∈ recipients } (id, r) (history.map Call.op) := by
  induction history with
  | nil => rfl
  | cons call history ih =>
      cases call with
      | queueMsg message =>
          unfold queued at distinct
          rw [List.map_append, List.nodup_append] at distinct
          exact ih distinct.1
      | removeRecipient messageId recipient =>
          have before : ((queued history).map HasMsgId.msgId).Nodup := distinct
          have removed : ((after recipients history).removeRecipient messageId recipient).1 = true ↔
              (messageId, recipient) ∈ owed recipients history :=
            removed_after before nonempty _ _
          have same : ((messageId, recipient) = (id, r) ∧
              ((after recipients history).removeRecipient messageId recipient).1 = true) ↔
                (messageId, recipient) = (id, r) ∧ (id, r) ∈ owed recipients history := by
            rw [removed]
            constructor
            · rintro ⟨eq, mem⟩
              exact ⟨eq, eq ▸ mem⟩
            · rintro ⟨eq, mem⟩
              exact ⟨eq, eq ▸ mem⟩
          rw [removals, ih before]
          by_cases found : (messageId, recipient) = (id, r) ∧ (id, r) ∈ owed recipients history
          · rw [if_pos (same.mpr found)]
            exact congrArg (· + _) (if_pos found).symm
          · rw [if_neg (mt same.mp found)]
            exact congrArg (· + _) (if_neg found).symm

/-- **Refinement.**  For every history in which no message is queued twice. -/
theorem refines (distinct : ((queued history).map HasMsgId.msgId).Nodup)
    (nonempty : recipients ≠ []) : Refines recipients history := by
  obtain ⟨wf, order⟩ := sublist_queued distinct nonempty
  have stands := owes_after distinct nonempty
  refine ⟨stands, wf.nonempty, order, ?_, removed_after distinct nonempty, ?_⟩
  · intro message mem
    constructor
    · intro held
      obtain ⟨holder, here, rfl⟩ := List.mem_map.mp held
      obtain ⟨r, owes⟩ := wf.exists_owes ⟨holder, here, rfl⟩
      exact ⟨r, (stands _ r).mp owes⟩
    · rintro ⟨r, owes⟩
      obtain ⟨holder, here, same, _⟩ := (stands _ r).mpr owes
      have old := List.mem_map_of_mem (f := MsgHolder.orgMsg) here
      have equal : holder.orgMsg = message :=
        List.inj_on_of_nodup_map distinct (order.subset old) mem same
      rw [← equal]
      exact old
  · intro message mem r here
    have entered : HasMsgId.msgId message ∈ Obligations.entered (history.map Call.op) := by
      rw [entered_op, List.mem_reverse]
      exact List.mem_map_of_mem mem
    have enteredOnce : (Obligations.entered (history.map Call.op)).Nodup := by
      rw [entered_op, List.nodup_reverse]
      exact distinct
    have isRecipient : r ∈ { r | r ∈ recipients } := here
    have conserved := Obligations.met_add_owed enteredOnce entered isRecipient
    rw [← removals_eq_met distinct nonempty] at conserved
    constructor
    · intro still
      rw [owed] at still
      rw [if_pos still] at conserved
      omega
    · intro gone
      rw [owed] at gone
      rw [if_neg gone] at conserved
      exact conserved

/-- Two messages; one host has answered the first one twice, and another one unasked. -/
def answeredTwice : List (Call DataMessage Bool) :=
  [.removeRecipient 1 true, .removeRecipient 9 false, .removeRecipient 1 true,
    .queueMsg ⟨1, 1, 2, 8⟩, .queueMsg ⟨1, 1, 1, 7⟩]

theorem refines_answeredTwice : Refines [false, true] answeredTwice :=
  refines (by decide) (by decide)

end ContinuousMsgSender

end GroupComm.Lab1
