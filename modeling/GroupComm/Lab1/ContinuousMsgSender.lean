import Mathlib.Data.Finset.Basic
import GroupComm.Lab1.Message

/-!
# `ContinuousMsgSender`

The sender keeps, for each message that still has to reach somebody, the set of recipients
that have not answered, and sends the message to them over and over.

* `queueMsg` and `removeRecipient` are the two operations of the class.  The recipients of a
  new message are the constructor's `recipients`, passed here as an argument.
* `Owes s id r` says that message `id` is still sent to `r`, and `WellFormed` that the
  list has one holder for each message and none without recipients.  The two operations act
  on the owed pairs as an insertion and a deletion (`owes_queueMsg`, `owes_removeRecipient`).

The send pass goes over all owed pairs under the lock; the network model lets any one of them
be sent at any time, which covers every pass.  Left out are the wait of the sending thread,
the growing interval between two passes and the serialised copy of the message.
-/

namespace GroupComm.Lab1

/-- The messages a `ContinuousMsgSender` can be instantiated with: those with a `msg_id`. -/
class HasMsgId (T : Type) where
  msgId : T → UInt32

instance : HasMsgId DataMessage := ⟨DataMessage.msgId⟩
instance : HasMsgId SeqMessage := ⟨SeqMessage.msgId⟩

@[simp] theorem DataMessage.hasMsgId (m : DataMessage) : HasMsgId.msgId m = m.msgId := rfl
@[simp] theorem SeqMessage.hasMsgId (m : SeqMessage) : HasMsgId.msgId m = m.msgId := rfl

/-- `MsgHolder`; the recipients are an `unordered_set`. -/
structure MsgHolder (T Host : Type) where
  orgMsg : T
  recipients : Finset Host

structure ContinuousMsgSender (T Host : Type) where
  msgList : List (MsgHolder T Host) := []

namespace ContinuousMsgSender

variable {T Host : Type} [HasMsgId T]

/-! ## The owed pairs -/

/-- Message `id` is still sent to `r`. -/
def Owes (s : ContinuousMsgSender T Host) (id : UInt32) (r : Host) : Prop :=
  ∃ holder ∈ s.msgList, HasMsgId.msgId holder.orgMsg = id ∧ r ∈ holder.recipients

/-- Message `id` is still in the list. -/
def Holds (s : ContinuousMsgSender T Host) (id : UInt32) : Prop :=
  ∃ holder ∈ s.msgList, HasMsgId.msgId holder.orgMsg = id

/-- One holder for each message, and none without recipients. -/
structure WellFormed (s : ContinuousMsgSender T Host) : Prop where
  distinct : s.msgList.Pairwise fun a b => HasMsgId.msgId a.orgMsg ≠ HasMsgId.msgId b.orgMsg
  nonempty : ∀ holder ∈ s.msgList, holder.recipients.Nonempty

theorem wellFormed_empty : WellFormed ({} : ContinuousMsgSender T Host) :=
  ⟨.nil, by simp⟩

theorem Owes.holds {s : ContinuousMsgSender T Host} {id : UInt32} {r : Host}
    (owes : s.Owes id r) : s.Holds id :=
  let ⟨holder, mem, eq, _⟩ := owes
  ⟨holder, mem, eq⟩

/-- In a well-formed list a message that is still held is owed to somebody. -/
theorem WellFormed.exists_owes {s : ContinuousMsgSender T Host} (wf : s.WellFormed)
    {id : UInt32} (held : s.Holds id) : ∃ r, s.Owes id r := by
  obtain ⟨holder, mem, eq⟩ := held
  obtain ⟨r, hr⟩ := wf.nonempty holder mem
  exact ⟨r, holder, mem, eq, hr⟩

variable [DecidableEq Host]

/-! ## The operations -/

def queueMsg (s : ContinuousMsgSender T Host) (recipients : List Host) (message : T) :
    ContinuousMsgSender T Host :=
  { s with msgList := s.msgList ++ [⟨message, recipients.toFinset⟩] }

/-- The search of `removeRecipient`: the first holder of the message loses the recipient.
The flag is the result of `erase`. -/
def eraseFromFirst (messageId : UInt32) (recipient : Host) :
    List (MsgHolder T Host) → Bool × List (MsgHolder T Host)
  | [] => (false, [])
  | holder :: rest =>
      if messageId = HasMsgId.msgId holder.orgMsg then
        (decide (recipient ∈ holder.recipients),
          { holder with recipients := holder.recipients.erase recipient } :: rest)
      else
        let (removed, rest') := eraseFromFirst messageId recipient rest
        (removed, holder :: rest')

/-- `removeRecipient`: erase the recipient, then drop the first holder without recipients,
whichever it is. -/
def removeRecipient (s : ContinuousMsgSender T Host) (messageId : UInt32) (recipient : Host) :
    Bool × ContinuousMsgSender T Host :=
  let (removed, msgList) := eraseFromFirst messageId recipient s.msgList
  (removed, { s with msgList := msgList.eraseP fun holder => holder.recipients = ∅ })

/-! ### Queueing -/

theorem owes_queueMsg (s : ContinuousMsgSender T Host) (recipients : List Host) (message : T)
    (id : UInt32) (r : Host) :
    (s.queueMsg recipients message).Owes id r ↔
      s.Owes id r ∨ (HasMsgId.msgId message = id ∧ r ∈ recipients) := by
  simp only [Owes, queueMsg, List.mem_append, List.mem_singleton]
  constructor
  · rintro ⟨holder, mem | rfl, eq, owed⟩
    · exact Or.inl ⟨holder, mem, eq, owed⟩
    · exact Or.inr ⟨eq, List.mem_toFinset.mp owed⟩
  · rintro (⟨holder, mem, eq, owed⟩ | ⟨eq, owed⟩)
    · exact ⟨holder, Or.inl mem, eq, owed⟩
    · exact ⟨_, Or.inr rfl, eq, List.mem_toFinset.mpr owed⟩

theorem holds_queueMsg (s : ContinuousMsgSender T Host) (recipients : List Host) (message : T)
    (id : UInt32) :
    (s.queueMsg recipients message).Holds id ↔ s.Holds id ∨ HasMsgId.msgId message = id := by
  simp only [Holds, queueMsg, List.mem_append, List.mem_singleton]
  constructor
  · rintro ⟨holder, mem | rfl, eq⟩
    · exact Or.inl ⟨holder, mem, eq⟩
    · exact Or.inr eq
  · rintro (⟨holder, mem, eq⟩ | eq)
    · exact ⟨holder, Or.inl mem, eq⟩
    · exact ⟨_, Or.inr rfl, eq⟩

theorem WellFormed.queueMsg {s : ContinuousMsgSender T Host} (wf : s.WellFormed)
    {recipients : List Host} {message : T} (nonempty : recipients ≠ [])
    (fresh : ¬ s.Holds (HasMsgId.msgId message)) : (s.queueMsg recipients message).WellFormed where
  distinct := by
    rw [ContinuousMsgSender.queueMsg, List.pairwise_append]
    refine ⟨wf.distinct, List.pairwise_singleton _ _, fun a ha b hb eq => fresh ?_⟩
    rw [List.mem_singleton] at hb
    subst hb
    exact ⟨a, ha, eq⟩
  nonempty holder mem := by
    rcases List.mem_append.mp mem with old | new
    · exact wf.nonempty holder old
    · rw [List.mem_singleton] at new
      subst new
      obtain ⟨r, hr⟩ := List.exists_mem_of_ne_nil _ nonempty
      exact ⟨r, List.mem_toFinset.mpr hr⟩

/-! ### Removing -/

theorem eraseFromFirst_of_not_holds {messageId : UInt32} {recipient : Host}
    {l : List (MsgHolder T Host)} (absent : ∀ h ∈ l, HasMsgId.msgId h.orgMsg ≠ messageId) :
    eraseFromFirst messageId recipient l = (false, l) := by
  induction l with
  | nil => rfl
  | cons holder rest ih =>
      have skip : ¬ messageId = HasMsgId.msgId holder.orgMsg := fun eq =>
        absent holder (by simp) eq.symm
      simp only [eraseFromFirst, skip, if_false, ih fun h mem => absent h (by simp [mem])]

theorem eraseFromFirst_append {messageId : UInt32} {recipient : Host}
    {before after : List (MsgHolder T Host)} {holder : MsgHolder T Host}
    (absent : ∀ h ∈ before, HasMsgId.msgId h.orgMsg ≠ messageId)
    (found : HasMsgId.msgId holder.orgMsg = messageId) :
    eraseFromFirst messageId recipient (before ++ holder :: after) =
      (decide (recipient ∈ holder.recipients),
        before ++ { holder with recipients := holder.recipients.erase recipient } :: after) := by
  induction before with
  | nil => simp [eraseFromFirst, found]
  | cons h rest ih =>
      have skip : ¬ messageId = HasMsgId.msgId h.orgMsg := fun eq => absent h (by simp) eq.symm
      simp only [List.cons_append, eraseFromFirst, skip, if_false,
        ih fun g mem => absent g (by simp [mem])]

theorem mem_eraseFromFirst {messageId : UInt32} {recipient : Host}
    {l : List (MsgHolder T Host)} {h : MsgHolder T Host}
    (mem : h ∈ (eraseFromFirst messageId recipient l).2) :
    ∃ g ∈ l, g.orgMsg = h.orgMsg ∧ h.recipients ⊆ g.recipients := by
  induction l with
  | nil => cases mem
  | cons holder rest ih =>
      unfold eraseFromFirst at mem
      split at mem
      · rcases List.mem_cons.mp mem with rfl | later
        · exact ⟨holder, List.mem_cons_self, rfl, Finset.erase_subset _ _⟩
        · exact ⟨h, List.mem_cons_of_mem _ later, rfl, Finset.Subset.refl _⟩
      · rcases List.mem_cons.mp mem with rfl | later
        · exact ⟨h, List.mem_cons_self, rfl, Finset.Subset.refl _⟩
        · obtain ⟨g, old, rest⟩ := ih later
          exact ⟨g, List.mem_cons_of_mem _ old, rest⟩

/-- The messages held after a removal were held before. -/
theorem orgMsg_removeRecipient (s : ContinuousMsgSender T Host) (messageId : UInt32)
    (recipient : Host) :
    ∀ h ∈ (s.removeRecipient messageId recipient).2.msgList,
      ∃ g ∈ s.msgList, g.orgMsg = h.orgMsg ∧ h.recipients ⊆ g.recipients :=
  fun _ mem => mem_eraseFromFirst (List.eraseP_subset mem)

theorem holds_of_removeRecipient {s : ContinuousMsgSender T Host}
    {messageId : UInt32} {recipient : Host} {id : UInt32}
    (held : (s.removeRecipient messageId recipient).2.Holds id) : s.Holds id := by
  obtain ⟨h, mem, eq⟩ := held
  obtain ⟨g, old, same, _⟩ := s.orgMsg_removeRecipient messageId recipient h mem
  exact ⟨g, old, same ▸ eq⟩

/-- Only what was owed is removed. -/
theorem owes_of_removed {s : ContinuousMsgSender T Host} {messageId : UInt32} {recipient : Host}
    (removed : (s.removeRecipient messageId recipient).1 = true) : s.Owes messageId recipient := by
  obtain ⟨l⟩ := s
  change (eraseFromFirst messageId recipient l).1 = true at removed
  induction l with
  | nil => cases removed
  | cons holder rest ih =>
      unfold eraseFromFirst at removed
      split at removed
      · rename_i found
        exact ⟨holder, List.mem_cons_self, found.symm, of_decide_eq_true removed⟩
      · obtain ⟨h, mem, owed⟩ := ih removed
        exact ⟨h, List.mem_cons_of_mem _ mem, owed⟩

/-- What `removeRecipient` does to a well-formed list: nothing when the message is not held;
otherwise only the holder of the message changes, and it goes when its last recipient does. -/
theorem WellFormed.removeRecipient_cases {s : ContinuousMsgSender T Host} (wf : s.WellFormed)
    (messageId : UInt32) (recipient : Host) :
    (¬ s.Holds messageId ∧ s.removeRecipient messageId recipient = (false, s)) ∨
      ∃ before holder after, s.msgList = before ++ holder :: after ∧
        HasMsgId.msgId holder.orgMsg = messageId ∧
        s.removeRecipient messageId recipient =
          (decide (recipient ∈ holder.recipients),
            ⟨before ++ (if holder.recipients.erase recipient = ∅ then []
              else [{ holder with recipients := holder.recipients.erase recipient }]) ++ after⟩) := by
  have kept : ∀ {l : List (MsgHolder T Host)}, (∀ h ∈ l, h ∈ s.msgList) →
      ∀ h ∈ l, ¬ decide (h.recipients = ∅) = true := fun sub h mem => by
    simpa using (wf.nonempty h (sub h mem)).ne_empty
  by_cases held : s.Holds messageId
  · obtain ⟨holder, mem, found⟩ := held
    obtain ⟨before, after, split⟩ := List.append_of_mem mem
    have distinct := wf.distinct
    rw [split, List.pairwise_append] at distinct
    have absent : ∀ h ∈ before, HasMsgId.msgId h.orgMsg ≠ messageId := fun h hb =>
      found ▸ distinct.2.2 h hb holder (by simp)
    refine Or.inr ⟨before, holder, after, split, found, ?_⟩
    have keptBefore := kept (l := before) fun h hb => by simp [split, hb]
    have keptAfter := kept (l := after) fun h ha => by simp [split, ha]
    simp only [removeRecipient, split, eraseFromFirst_append absent found]
    rw [List.eraseP_append_right _ keptBefore]
    by_cases last : holder.recipients.erase recipient = ∅
    · simp [last]
    · simp [last, List.eraseP_of_forall_not keptAfter]
  · refine Or.inl ⟨held, ?_⟩
    have absent : ∀ h ∈ s.msgList, HasMsgId.msgId h.orgMsg ≠ messageId := fun h mem eq =>
      held ⟨h, mem, eq⟩
    simp only [removeRecipient, eraseFromFirst_of_not_holds absent]
    rw [List.eraseP_of_forall_not (kept fun h mem => mem)]

theorem WellFormed.removeRecipient {s : ContinuousMsgSender T Host} (wf : s.WellFormed)
    (messageId : UInt32) (recipient : Host) :
    (s.removeRecipient messageId recipient).2.WellFormed := by
  rcases wf.removeRecipient_cases messageId recipient with
    ⟨_, eq⟩ | ⟨before, holder, after, split, _, eq⟩
  · rw [eq]
    exact wf
  · rw [eq]
    have distinct := wf.distinct
    have nonempty := wf.nonempty
    rw [split] at distinct nonempty
    by_cases last : holder.recipients.erase recipient = ∅
    · simp only [last, if_true, List.append_nil]
      exact ⟨distinct.sublist (List.append_sublist_append_left _ |>.mpr (List.sublist_cons_self _ _)),
        fun h mem => nonempty h (by
          rcases List.mem_append.mp mem with hb | ha
          · simp [hb]
          · simp [ha])⟩
    · simp only [last, if_false, List.append_assoc, List.singleton_append]
      refine ⟨?_, fun h mem => ?_⟩
      · rw [List.pairwise_append, List.pairwise_cons] at distinct ⊢
        exact ⟨distinct.1, distinct.2.1, fun a ha b hb => by
          rcases List.mem_cons.mp hb with rfl | hb
          · exact distinct.2.2 a ha holder (by simp)
          · exact distinct.2.2 a ha b (by simp [hb])⟩
      · rcases List.mem_append.mp mem with hb | hc
        · exact nonempty h (by simp [hb])
        · rcases List.mem_cons.mp hc with rfl | ha
          · exact Finset.nonempty_iff_ne_empty.mpr last
          · exact nonempty h (by simp [ha])

/-- `removeRecipient` reports whether the pair was owed. -/
theorem WellFormed.removed_iff {s : ContinuousMsgSender T Host} (wf : s.WellFormed)
    (messageId : UInt32) (recipient : Host) :
    (s.removeRecipient messageId recipient).1 = true ↔ s.Owes messageId recipient := by
  rcases wf.removeRecipient_cases messageId recipient with
    ⟨absent, eq⟩ | ⟨before, holder, after, split, found, eq⟩
  · rw [eq]
    refine ⟨fun removed => ?_, fun owes => (absent owes.holds).elim⟩
    cases removed
  · rw [eq]
    simp only [decide_eq_true_eq]
    refine ⟨fun mem => ⟨holder, by simp [split], found, mem⟩, fun owes => ?_⟩
    obtain ⟨h, mem, same, owed⟩ := owes
    have distinct := wf.distinct
    rw [split] at mem distinct
    rw [List.pairwise_append, List.pairwise_cons] at distinct
    rcases List.mem_append.mp mem with hb | hc
    · exact (distinct.2.2 h hb holder (by simp) (same.trans found.symm)).elim
    · rcases List.mem_cons.mp hc with rfl | ha
      · exact owed
      · exact (distinct.2.1.1 h ha (found.trans same.symm)).elim

/-- `removeRecipient` deletes exactly the named pair. -/
theorem WellFormed.owes_removeRecipient {s : ContinuousMsgSender T Host} (wf : s.WellFormed)
    (messageId : UInt32) (recipient : Host) (id : UInt32) (r : Host) :
    (s.removeRecipient messageId recipient).2.Owes id r ↔
      s.Owes id r ∧ ¬ (id = messageId ∧ r = recipient) := by
  rcases wf.removeRecipient_cases messageId recipient with
    ⟨absent, eq⟩ | ⟨before, holder, after, split, found, eq⟩
  · rw [eq]
    refine ⟨fun owes => ⟨owes, fun clash => absent ?_⟩, And.left⟩
    exact clash.1 ▸ owes.holds
  · have distinct := wf.distinct
    rw [split, List.pairwise_append, List.pairwise_cons] at distinct
    have others : ∀ h ∈ before ++ after, HasMsgId.msgId h.orgMsg ≠ messageId := by
      intro h mem
      rcases List.mem_append.mp mem with hb | ha
      · exact found ▸ distinct.2.2 h hb holder (by simp)
      · exact found ▸ (distinct.2.1.1 h ha).symm
    rw [eq]
    constructor
    · rintro ⟨h, mem, same, owed⟩
      have shape : h ∈ before ++ after ∨
          h = { holder with recipients := holder.recipients.erase recipient } := by
        simp only [List.mem_append] at mem ⊢
        split at mem <;> simp at mem <;> tauto
      rcases shape with old | rfl
      · refine ⟨⟨h, ?_, same, owed⟩, fun clash => others h old (same.trans clash.1)⟩
        rw [split]
        rcases List.mem_append.mp old with hb | ha
        · simp [hb]
        · simp [ha]
      · rw [Finset.mem_erase] at owed
        exact ⟨⟨holder, by simp [split], same, owed.2⟩, fun clash => owed.1 clash.2⟩
    · rintro ⟨⟨h, mem, same, owed⟩, apart⟩
      rw [split, List.mem_append, List.mem_cons] at mem
      rcases mem with hb | rfl | ha
      · exact ⟨h, by simp [hb], same, owed⟩
      · have stays : r ∈ h.recipients.erase recipient :=
          Finset.mem_erase.mpr ⟨fun e => apart ⟨same.symm.trans found, e⟩, owed⟩
        have left : ¬ h.recipients.erase recipient = ∅ := Finset.ne_empty_of_mem stays
        exact ⟨{ h with recipients := h.recipients.erase recipient }, by simp [left], same, stays⟩
      · exact ⟨h, by simp [ha], same, owed⟩

/-- An answer that is not awaited changes nothing. -/
theorem WellFormed.removeRecipient_of_not_owes {s : ContinuousMsgSender T Host}
    (wf : s.WellFormed) {messageId : UInt32} {recipient : Host}
    (notOwed : ¬ s.Owes messageId recipient) :
    s.removeRecipient messageId recipient = (false, s) := by
  rcases wf.removeRecipient_cases messageId recipient with
    ⟨_, eq⟩ | ⟨before, holder, after, split, found, eq⟩
  · exact eq
  · have outside : recipient ∉ holder.recipients := fun mem =>
      notOwed ⟨holder, by simp [split], found, mem⟩
    have left : ¬ holder.recipients = ∅ := (wf.nonempty holder (by simp [split])).ne_empty
    have same : before ++ [holder] ++ after = s.msgList := by simp [split]
    rw [eq, Finset.erase_eq_of_notMem outside, if_neg left, same]
    simp [outside]

/-- Other messages stay held. -/
theorem WellFormed.holds_removeRecipient_of_ne {s : ContinuousMsgSender T Host}
    (wf : s.WellFormed) {messageId : UInt32} {recipient : Host} {id : UInt32} (held : s.Holds id)
    (ne : id ≠ messageId) : (s.removeRecipient messageId recipient).2.Holds id := by
  obtain ⟨r, owed⟩ := wf.exists_owes held
  exact ((wf.owes_removeRecipient messageId recipient id r).mpr
    ⟨owed, fun clash => ne clash.1⟩).holds

end ContinuousMsgSender

end GroupComm.Lab1
