import GroupComm.Lab2.Leading

/-!
# What has reached the followers

`Tracked` relates the views of the leader to what has reached each follower (`World.heard`): for a
running member, what it has heard and what it is still owed are all views since it was admitted.
Every step of the leader and of a follower keeps it.
-/

namespace GroupComm.Lab2

open MembershipService World Transition Process

/-- What has been announced to a process on a connection; what has not been read is lost with
the process. -/
def World.heard (s : World) (k : Socket) : List View :=
  (s.processes (s.owner k)).installed ++
    if (s.processes (s.owner k)).running then viewsIn (s.inbox k) else []

/-- The views from the one with index `n` on. -/
def World.since (s : World) (n : ℕ) : List View :=
  (s.views.drop n).map Creation.view

def Process.owedViews (pr : Process) (p : PeerId) : List View :=
  if pr.owesView p then [pr.service.installedView pr.me] else []

structure Tracked (L : ProcId) (s : World) : Prop where
  leading : (s.processes L).Leading
  own : (s.processes L).installed = s.views.map Creation.view
  known : ∀ k, s.Admitted k → k.connection < s.opened ∧ s.owner k = L
  early : (s.processes L).main.listening = false → ∀ k, ¬ s.Admitted k
  queue : (s.backlog L).Nodup
  unused : ∀ k ∈ s.backlog L, ∀ p, (s.processes L).service.tcpClientMap p ≠ some k
  waiting : ∀ k ∈ s.backlog L, ¬ s.Admitted k
  joining : ∀ p k, (s.processes L).Joins p → (s.processes L).service.tcpClientMap p = some k →
    ¬ s.Admitted k
  unadmitted : ∀ k : Socket, k.connection < s.opened → s.owner k = L → ¬ s.Admitted k →
    s.heard k.peer = []
  segment : ∀ n creation k, s.views[n]? = some creation → creation.added = some k →
    s.heard k.peer <+: s.since n
  /-- What a member has heard and what it is owed are all views from its addition on. -/
  complete : ∀ p ∈ (s.processes L).service.alivePeers, ∀ k,
    (s.processes L).service.tcpClientMap p = some k → s.Admitted k ∧
      ((s.processes (s.owner k.peer)).running = true → ∀ n creation,
        s.views[n]? = some creation → creation.added = some k →
          s.heard k.peer ++ (s.processes L).owedViews p = s.since n)
  consecutive : ∀ n creation k, s.views[n]? = some creation → creation.added = some k →
    (s.since n).IsChain fun v v' => v'.viewId = v.viewId + 1
  contains : ∀ k, s.Admitted k → ∀ v ∈ s.heard k.peer,
    (s.processes (s.owner k.peer)).me ∈ v.members ∧ (s.processes L).me ∈ v.members

namespace Tracked

variable {L : ProcId} {s s' : World} {i : ProcId} {next : Process}

/-- A step that makes no view and sends none. -/
theorem frame (h : Tracked L s) (wired : Wired s) (leading : (s'.processes L).Leading)
    (installed : (s'.processes L).installed = (s.processes L).installed)
    (listening : (s'.processes L).main.listening = false →
      (s.processes L).main.listening = false)
    (views : s'.views = s.views) (owner : s'.owner = s.owner) (opened : s'.opened = s.opened)
    (me : ∀ k : Socket, k.connection < s.opened →
      (s'.processes (s.owner k)).me = (s.processes (s.owner k)).me)
    (backlog : (s'.backlog L).Sublist (s.backlog L))
    (held : ∀ p k, (s'.processes L).service.tcpClientMap p = some k →
      (s.processes L).service.tcpClientMap p = some k ∨ k ∈ s.backlog L ∧ k ∉ s'.backlog L)
    (joining : ∀ p k, (s'.processes L).Joins p →
      (s'.processes L).service.tcpClientMap p = some k → ¬ s.Admitted k)
    (kept : ∀ p ∈ (s'.processes L).service.alivePeers,
      p ∈ (s.processes L).service.alivePeers ∧
        (s'.processes L).service.tcpClientMap p = (s.processes L).service.tcpClientMap p ∧
          (s'.processes L).owedViews p = (s.processes L).owedViews p)
    (heard : ∀ k : Socket, k.connection < s.opened → s.owner k ≠ L →
      s'.heard k <+: s.heard k ∧ ((s'.processes (s.owner k)).running = true →
        (s.processes (s.owner k)).running = true ∧ s'.heard k = s.heard k)) : Tracked L s' := by
  have admitted : ∀ k, s'.Admitted k ↔ s.Admitted k := by
    intro k
    unfold World.Admitted
    rw [views]
  have since : ∀ n, s'.since n = s.since n := by
    intro n
    unfold World.since
    rw [views]
  have heard_peer : ∀ k : Socket, k.connection < s.opened → s.owner k = L →
      s'.heard k.peer <+: s.heard k.peer ∧ ((s'.processes (s.owner k.peer)).running = true →
        (s.processes (s.owner k.peer)).running = true ∧ s'.heard k.peer = s.heard k.peer) := by
    intro k less own
    apply heard k.peer less
    rw [← own]
    exact wired.owner_peer_ne less
  constructor
  · exact leading
  · rw [installed, views]
    exact h.own
  · intro k now
    rw [opened, owner]
    exact h.known k ((admitted k).mp now)
  · intro deaf k
    rw [admitted]
    exact h.early (listening deaf) k
  · exact h.queue.sublist backlog
  · intro k waits p found
    rcases held p k found with before | ⟨_, gone⟩
    · exact h.unused k (backlog.subset waits) p before
    · exact gone waits
  · intro k waits
    rw [admitted]
    exact h.waiting k (backlog.subset waits)
  · intro p k joins found
    rw [admitted]
    exact joining p k joins found
  · intro k less own outside
    rw [opened] at less
    rw [owner] at own
    rw [admitted] at outside
    have shorter := (heard_peer k less own).1
    rw [h.unadmitted k less own outside] at shorter
    exact List.prefix_nil.mp shorter
  · intro n creation k made added
    rw [views] at made
    obtain ⟨less, own⟩ := h.known k ⟨creation, List.mem_of_getElem? made, added⟩
    rw [since]
    exact (heard_peer k less own).1.trans (h.segment n creation k made added)
  · intro p mem k found
    obtain ⟨before, same, owed⟩ := kept p mem
    rw [same] at found
    obtain ⟨now, all⟩ := h.complete p before k found
    refine ⟨(admitted k).mpr now, ?_⟩
    intro running n creation made added
    rw [owner] at running
    rw [views] at made
    obtain ⟨less, own⟩ := h.known k now
    obtain ⟨up, equal⟩ := (heard_peer k less own).2 running
    rw [equal, owed, since]
    exact all up n creation made added
  · intro n creation k made added
    rw [views] at made
    rw [since]
    exact h.consecutive n creation k made added
  · intro k now v mem
    rw [admitted] at now
    obtain ⟨less, own⟩ := h.known k now
    have both := h.contains k now v ((heard_peer k less own).1.subset mem)
    rw [owner, me k.peer less]
    have leader := me k less
    rw [own] at leader
    rw [leader]
    exact both

/-- What a message from the leader adds to what a follower has heard. -/
theorem heard_deliver {k l : Socket} {m : Msg} (foreign : s.owner l ≠ L) :
    ((s.deliver k m).setProcess L next).heard l = s.heard l ++
      if l = k ∧ (s.processes (s.owner l)).running = true then viewsIn [m] else [] := by
  have process : ((s.deliver k m).setProcess L next).processes (s.owner l) =
      s.processes (s.owner l) := Function.update_of_ne foreign _ _
  have inbox : ((s.deliver k m).setProcess L next).inbox l =
      if l = k then s.inbox k ++ [m] else s.inbox l := Function.update_apply _ _ _ _
  unfold World.heard
  change (((s.deliver k m).setProcess L next).processes (s.owner l)).installed ++ (if
    (((s.deliver k m).setProcess L next).processes (s.owner l)).running then _ else []) = _
  rw [process, inbox, List.append_assoc]
  congr 1
  cases (s.processes (s.owner l)).running with
  | false => simp
  | true =>
      by_cases here : l = k
      · simp [here]
      · simp [here]

/-- The leader sends the view to the next member. -/
theorem deliver (h : Tracked L s) (wired : Wired s) {t : Thread} {m : NewViewMsg} {p : PeerId}
    {rest : List PeerId} {k : Socket}
    (place : (s.processes L).operation t = some (.deliver m (p :: rest)))
    (found : (s.processes L).service.tcpClientMap p = some k)
    (leading : ((s.processes L).setOperation (.deliver m rest) t).Leading) :
    Tracked L ((s.deliver k.peer (.newView m)).setProcess L
      ((s.processes L).setOperation (.deliver m rest) t)) := by
  generalize goes : (s.processes L).setOperation (.deliver m rest) t = next at leading
  have service : next.service = (s.processes L).service := by
    rw [← goes]
    exact service_setOperation _ _ _
  have me : next.me = (s.processes L).me := by
    rw [← goes]
    exact me_setOperation _ _ _
  have installed : next.installed = (s.processes L).installed := by
    rw [← goes]
    exact installed_setOperation _ _ _
  have nobody : ∀ q, ¬ next.Joins q := by
    rw [← goes]
    exact h.leading.steady.not_joins place (s.processes L) rfl rfl rfl
  have listening : next.main.listening = (s.processes L).main.listening := by
    rw [← goes]
    rcases h.leading.operation_cases place with ⟨rfl, main⟩ | ⟨rfl, _⟩
    · rw [setOperation_addPeer main, main]
      rfl
    · rfl
  have owes : ∀ q, (s.processes L).owesView q = decide (q ∈ p :: rest) ∧
      next.owesView q = decide (q ∈ rest) := by
    intro q
    rw [← goes]
    exact ⟨owesView_of_place h.leading.steady place q,
      h.leading.steady.owesView_setOperation place (s.processes L) rfl rfl q⟩
  obtain ⟨announces, nodup, alive, _⟩ := h.leading.steady.tells t _ place
  obtain ⟨less, own, peer⟩ := wired.held L p k (Or.inl found)
  have mem : p ∈ (s.processes L).service.alivePeers := alive p List.mem_cons_self
  rw [List.nodup_cons] at nodup
  have view : m.view = (s.processes L).service.installedView (s.processes L).me := by
    rw [announces, View.view_newViewMsg]
  have owed_here : (s.processes L).owedViews p = [m.view] := by
    unfold owedViews
    rw [(owes p).1, view]
    exact if_pos (decide_eq_true List.mem_cons_self)
  have owed_next : next.owedViews p = [] := by
    unfold owedViews
    rw [(owes p).2]
    exact if_neg (by simp [nodup.1])
  have owed_other : ∀ q, q ≠ p → next.owedViews q = (s.processes L).owedViews q := by
    intro q apart
    have same : q ∈ rest ↔ q ∈ p :: rest := by
      rw [List.mem_cons]
      exact ⟨Or.inr, fun mem => mem.resolve_left apart⟩
    unfold owedViews
    rw [(owes q).1, (owes q).2, service, me, decide_eq_decide.mpr same]
  -- the sockets at the other ends
  have heard : ∀ l : Socket, l.connection < s.opened → s.owner l = L →
      ((s.deliver k.peer (.newView m)).setProcess L next).heard l.peer = s.heard l.peer ++
        if l = k ∧ (s.processes (s.owner l.peer)).running = true then [m.view] else [] := by
    intro l less own
    rw [heard_deliver (own ▸ wired.owner_peer_ne less)]
    have same : l.peer = k.peer ↔ l = k := ⟨Socket.peer_injective, fun same => by rw [same]⟩
    simp only [same]
    rfl
  have process : ∀ j, j ≠ L → ((s.deliver k.peer (.newView m)).setProcess L next).processes j =
      s.processes j := fun j other => Function.update_of_ne other _ _
  have here : ((s.deliver k.peer (.newView m)).setProcess L next).processes L = next :=
    Function.update_self _ _ _
  have complete : ∀ q ∈ next.service.alivePeers, ∀ l,
      next.service.tcpClientMap q = some l → s.Admitted l ∧
        ((s.processes (s.owner l.peer)).running = true → ∀ n creation,
          s.views[n]? = some creation → creation.added = some l →
            ((s.deliver k.peer (.newView m)).setProcess L next).heard l.peer ++ next.owedViews q =
              s.since n) := by
    rw [service]
    intro q mem l found'
    obtain ⟨admitted, all⟩ := h.complete q mem l found'
    obtain ⟨less, own⟩ := h.known l admitted
    refine ⟨admitted, ?_⟩
    intro running n creation made added
    have before := all running n creation made added
    rw [heard l less own]
    by_cases same : q = p
    · subst same
      rw [found] at found'
      cases found'
      rw [if_pos ⟨rfl, running⟩, owed_next, ← before, owed_here, List.append_nil]
    · have apart : l ≠ k := by
        rintro rfl
        apply same
        rw [← peer, ← (wired.held L q l (Or.inl found')).2.2]
      rw [if_neg (fun both => apart both.1), List.append_nil, owed_other q same]
      exact before
  have admitted : s.Admitted k := (h.complete p mem k found).1
  constructor
  · rw [here]
    exact leading
  · rw [here, installed]
    exact h.own
  · exact h.known
  · rw [here, listening]
    exact h.early
  · exact h.queue
  · rw [here, service]
    exact h.unused
  · exact h.waiting
  · rw [here]
    exact fun q l joins => absurd joins (nobody q)
  · intro l less own outside
    rw [heard l less own, h.unadmitted l less own outside, List.nil_append, if_neg]
    rintro ⟨rfl, _⟩
    exact outside admitted
  · intro n creation l made added
    obtain ⟨less, own⟩ := h.known l ⟨creation, List.mem_of_getElem? made, added⟩
    by_cases both : l = k ∧ (s.processes (s.owner l.peer)).running = true
    · obtain ⟨rfl, running⟩ := both
      have all := (complete p (by rw [service]; exact mem) l (by rw [service]; exact found)).2
        running n creation made added
      exact ⟨_, all⟩
    · rw [heard l less own, if_neg both, List.append_nil]
      exact h.segment n creation l made added
  · rw [here]
    intro q mem' l found'
    obtain ⟨now, all⟩ := complete q mem' l found'
    refine ⟨now, ?_⟩
    intro running
    apply all
    obtain ⟨less', own'⟩ := h.known l now
    change (((s.deliver k.peer (.newView m)).setProcess L next).processes
      (s.owner l.peer)).running = true at running
    rwa [process _ (own' ▸ wired.owner_peer_ne less')] at running
  · exact h.consecutive
  · intro l now v mem'
    obtain ⟨less', own'⟩ := h.known l now
    change (((s.deliver k.peer (.newView m)).setProcess L next).processes
      (s.owner l.peer)).me ∈ v.members ∧
        (((s.deliver k.peer (.newView m)).setProcess L next).processes L).me ∈ v.members
    rw [process _ (own' ▸ wired.owner_peer_ne less'), here, me]
    rw [heard l less' own'] at mem'
    rcases List.mem_append.mp mem' with before | new
    · exact h.contains l now v before
    · split at new
      · rename_i both
        rw [List.mem_singleton.mp new, view, both.1, peer]
        exact ⟨OrderedSet.mem_insert.mpr (Or.inr mem), OrderedSet.mem_insert.mpr (Or.inl rfl)⟩
      · cases new

/-- The leader makes a view. -/
theorem made (h : Tracked L s) (wired : Wired s) {creation : Creation}
    (leading : next.Leading) (me : next.me = (s.processes L).me)
    (installed : next.installed = (s.processes L).installed ++ [creation.view])
    (listening : next.main.listening = false → (s.processes L).main.listening = false ∧
      creation.added = none)
    (tcpClientMap : next.service.tcpClientMap = (s.processes L).service.tcpClientMap)
    (nobody : ∀ p, ¬ next.Joins p)
    (view : creation.view = next.service.installedView next.me)
    (viewId : ∀ k, s.Admitted k → next.service.viewId = (s.processes L).service.viewId + 1)
    (added : ∀ k, creation.added = some k → ∃ p, (s.processes L).Joins p ∧
      (s.processes L).service.tcpClientMap p = some k)
    (alivePeers : ∀ p ∈ next.service.alivePeers, p ∈ (s.processes L).service.alivePeers ∨
      creation.added = (s.processes L).service.tcpClientMap p)
    (before : ∀ p ∈ (s.processes L).service.alivePeers, (s.processes L).owesView p = false)
    (after : ∀ p ∈ next.service.alivePeers, next.owesView p = true) :
    Tracked L { s.setProcess L next with views := s.views ++ [creation] } := by
  let s' : World := { s.setProcess L next with views := s.views ++ [creation] }
  change Tracked L s'
  have admitted : ∀ k, s'.Admitted k ↔ s.Admitted k ∨ creation.added = some k := by
    intro k
    constructor
    · rintro ⟨c, mem, adds⟩
      rcases List.mem_append.mp mem with old | new
      · exact Or.inl ⟨c, old, adds⟩
      · rw [List.mem_singleton.mp new] at adds
        exact Or.inr adds
    · rintro (⟨c, mem, adds⟩ | adds)
      · exact ⟨c, List.mem_append_left _ mem, adds⟩
      · exact ⟨creation, List.mem_append_right _ (List.mem_singleton_self _), adds⟩
  have fresh : ∀ k, creation.added = some k →
      k.connection < s.opened ∧ s.owner k = L ∧ ¬ s.Admitted k := by
    intro k adds
    obtain ⟨p, joins, found⟩ := added k adds
    obtain ⟨less, own, _⟩ := wired.held L p k (Or.inl found)
    exact ⟨less, own, h.joining p k joins found⟩
  have index : ∀ n c, s'.views[n]? = some c →
      n < s.views.length ∧ s.views[n]? = some c ∨ n = s.views.length ∧ c = creation := by
    intro n c at_n
    change (s.views ++ [creation])[n]? = some c at at_n
    rw [List.getElem?_append] at at_n
    split at at_n
    · rename_i less
      exact Or.inl ⟨less, at_n⟩
    · rename_i more
      have last : n - s.views.length = 0 := by
        by_contra other
        rw [List.getElem?_eq_none (by rw [List.length_singleton]; omega)] at at_n
        cases at_n
      rw [last] at at_n
      cases at_n
      exact Or.inr ⟨by omega, rfl⟩
  have since_old : ∀ n, n < s.views.length → s'.since n = s.since n ++ [creation.view] := by
    intro n less
    change ((s.views ++ [creation]).drop n).map Creation.view = _
    rw [List.drop_append_of_le_length (le_of_lt less), List.map_append]
    rfl
  have since_new : s'.since s.views.length = [creation.view] := by
    change ((s.views ++ [creation]).drop s.views.length).map Creation.view = _
    rw [List.drop_left]
    rfl
  have process : ∀ j, j ≠ L → s'.processes j = s.processes j := fun j other =>
    Function.update_of_ne other _ _
  have here : s'.processes L = next := Function.update_self _ _ _
  have foreign : ∀ k : Socket, k.connection < s.opened → s.owner k = L → s.owner k.peer ≠ L :=
    fun k less own => own ▸ wired.owner_peer_ne less
  have heard : ∀ k : Socket, k.connection < s.opened → s.owner k = L →
      s'.heard k.peer = s.heard k.peer := by
    intro k less own
    change (s'.processes (s.owner k.peer)).installed ++
      (if (s'.processes (s.owner k.peer)).running then viewsIn (s.inbox k.peer) else []) = _
    rw [process _ (foreign k less own)]
    rfl
  have known : ∀ k, s'.Admitted k → k.connection < s.opened ∧ s.owner k = L := by
    intro k now
    rcases (admitted k).mp now with old | new
    · exact h.known k old
    · obtain ⟨less, own, _⟩ := fresh k new
      exact ⟨less, own⟩
  have owed_before : ∀ p ∈ (s.processes L).service.alivePeers,
      (s.processes L).owedViews p = [] := by
    intro p mem
    unfold owedViews
    rw [before p mem]
    rfl
  have owed_after : ∀ p ∈ next.service.alivePeers, next.owedViews p = [creation.view] := by
    intro p mem
    unfold owedViews
    rw [after p mem, view]
    rfl
  constructor
  · rw [here]
    exact leading
  · rw [here, installed, h.own]
    change _ = (s.views ++ [creation]).map Creation.view
    rw [List.map_append]
    rfl
  · exact known
  · rw [here]
    intro deaf k now
    obtain ⟨before, none⟩ := listening deaf
    rcases (admitted k).mp now with old | new
    · exact h.early before k old
    · rw [none] at new
      cases new
  · exact h.queue
  · rw [here, tcpClientMap]
    exact h.unused
  · intro k waits now
    rcases (admitted k).mp now with old | new
    · exact h.waiting k waits old
    · obtain ⟨p, _, found⟩ := added k new
      exact h.unused k waits p found
  · rw [here]
    exact fun p k joins => absurd joins (nobody p)
  · intro k less own outside
    rw [heard k less own]
    exact h.unadmitted k less own fun old => outside ((admitted k).mpr (Or.inl old))
  · intro n c k at_n adds
    rcases index n c at_n with ⟨less, old⟩ | ⟨rfl, rfl⟩
    · obtain ⟨less', own⟩ := h.known k ⟨c, List.mem_of_getElem? old, adds⟩
      rw [heard k less' own, since_old n less]
      exact (h.segment n c k old adds).trans (List.prefix_append _ _)
    · obtain ⟨less', own, outside⟩ := fresh k adds
      rw [heard k less' own, h.unadmitted k less' own outside]
      exact List.nil_prefix
  · rw [here, tcpClientMap]
    intro p mem k found
    have now : s'.Admitted k := by
      rw [admitted]
      rcases alivePeers p mem with old | new
      · exact Or.inl (h.complete p old k found).1
      · exact Or.inr (new.trans found)
    obtain ⟨less', own⟩ := known k now
    refine ⟨now, ?_⟩
    intro running n c at_n adds
    change (s'.processes (s.owner k.peer)).running = true at running
    rw [process _ (foreign k less' own)] at running
    rw [heard k less' own, owed_after p mem]
    rcases index n c at_n with ⟨less, old⟩ | ⟨rfl, rfl⟩
    · have member : p ∈ (s.processes L).service.alivePeers := by
        rcases alivePeers p mem with old | new
        · exact old
        · exact absurd ⟨c, List.mem_of_getElem? old, adds⟩ (fresh k (new.trans found)).2.2
      have all := (h.complete p member k found).2 running n c old adds
      rw [owed_before p member, List.append_nil] at all
      rw [all, since_old n less]
    · rw [h.unadmitted k less' own (fresh k adds).2.2, since_new]
      rfl
  · intro n c k at_n adds
    rcases index n c at_n with ⟨less, old⟩ | ⟨rfl, rfl⟩
    · rw [since_old n less]
      refine (h.consecutive n c k old adds).append (.singleton _) ?_
      intro v last v' first
      cases first
      have latest : (s.processes L).installed.getLast? = some v := by
        rw [h.own, ← List.take_append_drop n s.views, List.map_append, List.getLast?_append]
        change (s.since n).getLast?.or _ = _
        rw [Option.mem_def.mp last]
        rfl
      rw [h.leading.latest v latest, view, ← viewId k ⟨c, List.mem_of_getElem? old, adds⟩]
      rfl
    · rw [since_new]
      exact .singleton _
  · intro k now v mem
    obtain ⟨less', own⟩ := known k now
    rw [heard k less' own] at mem
    change (s'.processes (s.owner k.peer)).me ∈ v.members ∧ (s'.processes L).me ∈ v.members
    rw [process _ (foreign k less' own), here, me]
    rcases (admitted k).mp now with old | new
    · exact h.contains k old v mem
    · rw [h.unadmitted k less' own (fresh k new).2.2] at mem
      cases mem

/-- What a follower has heard is what it has installed and what is in its inbox. -/
theorem heard_eq {k : Socket} {pr : Process} {running : Bool}
    (process : s.processes (s.owner k) = pr) (up : pr.running = running) :
    s.heard k = pr.installed ++ if running then viewsIn (s.inbox k) else [] := by
  unfold World.heard
  rw [process, up]

/-- The leader does not take part in a step. -/
theorem bystander (h : Tracked L s) (wired : Wired s) (leader : s'.processes L = s.processes L)
    (views : s'.views = s.views) (owner : s'.owner = s.owner) (opened : s'.opened = s.opened)
    (me : ∀ k : Socket, k.connection < s.opened →
      (s'.processes (s.owner k)).me = (s.processes (s.owner k)).me)
    (backlog : s'.backlog = s.backlog)
    (heard : ∀ k : Socket, k.connection < s.opened → s.owner k ≠ L →
      s'.heard k <+: s.heard k ∧ ((s'.processes (s.owner k)).running = true →
        (s.processes (s.owner k)).running = true ∧ s'.heard k = s.heard k)) : Tracked L s' := by
  refine h.frame wired (by rw [leader]; exact h.leading) (by rw [leader]) (by rw [leader]; exact id)
    views owner opened me (by rw [backlog]) ?_ ?_ ?_ heard
  · rw [leader]
    exact fun p k found => Or.inl found
  · rw [leader]
    exact h.joining
  · rw [leader]
    exact fun p mem => ⟨mem, rfl, rfl⟩

/-- A follower takes a step. -/
theorem follower (h : Tracked L s) (g : Gathered L s) (wired : Wired s) {t : Thread}
    {label : Label} (step : ThreadStep (s.processes i) t label next) (apart : i ≠ L)
    (running : (s.processes i).running = true) (made : label.created = [])
    (processes : s'.processes = Function.update s.processes i next) (owner : s'.owner = s.owner)
    (opened : s'.opened = s.opened) (views : s'.views = s.views) (backlog : s'.backlog = s.backlog)
    (own : ∀ l m, label = .received l m → s.owner l = i)
    (reads : ∀ l m, label = .received l m → s.inbox l = m :: s'.inbox l)
    (inbox : ∀ l, s.owner l ≠ L → (∀ m, label ≠ .received l m) → s'.inbox l = s.inbox l) :
    Tracked L s' := by
  have process : ∀ j, s'.processes j = if j = i then next else s.processes j := by
    intro j
    rw [processes, Function.update_apply]
  have leader : s'.processes L = s.processes L := (process L).trans (if_neg apart.symm)
  refine h.bystander wired leader views owner opened ?_ backlog ?_
  · intro k less
    rw [process]
    split
    · rename_i here
      rw [step.me_eq, here]
    · rfl
  · intro k less foreign
    by_cases here : s.owner k = i
    · have before : s.heard k = (s.processes i).installed ++ viewsIn (s.inbox k) :=
        heard_eq (by rw [here]) running
      have now : s'.processes (s'.owner k) = next := by
        rw [owner, here]
        exact (process i).trans (if_pos rfl)
      have up : s'.processes (s.owner k) = next := by
        rw [here]
        exact (process i).trans (if_pos rfl)
      have suffices_eq (all : next.installed ++ viewsIn (s'.inbox k) = s.heard k) :
          s'.heard k <+: s.heard k ∧ ((s'.processes (s.owner k)).running = true →
            (s.processes (s.owner k)).running = true ∧ s'.heard k = s.heard k) := by
        rw [up, here, ← all]
        cases running' : next.running with
        | true =>
            rw [heard_eq now running']
            exact ⟨List.prefix_refl _, fun _ => ⟨running, rfl⟩⟩
        | false =>
            rw [heard_eq now running']
            exact ⟨List.prefix_append_right_inj _ |>.mpr List.nil_prefix, fun up => by cases up⟩
      by_cases received : ∃ m, label = .received k m
      · obtain ⟨m, rfl⟩ := received
        have head := reads k m rfl
        by_cases isView : ∃ m', m = .newView m'
        · obtain ⟨m', rfl⟩ := isView
          rcases step.reads_view with rfl | ⟨_, _, rfl⟩
          · rw [up, heard_eq now rfl, before]
            exact ⟨(List.prefix_append_right_inj _).mpr List.nil_prefix, fun up => by cases up⟩
          · have announced : m'.view ∈ s.heard k := by
              rw [before, head]
              exact List.mem_append_right _ List.mem_cons_self
            have mem : (s.processes i).me ∈ m'.view.members := by
              rw [← here, ← k.peer_peer]
              rw [← k.peer_peer] at announced
              refine (h.contains k.peer ?_ m'.view announced).1
              by_contra outside
              rw [h.unadmitted k.peer less (g.owner_peer less foreign) outside] at announced
              cases announced
            apply suffices_eq
            rw [Process.installed_followerReceives mem, before, head, List.append_assoc]
            rfl
        · apply suffices_eq
          have same := step.installed_eq fun k' m' same => by
            cases same
            exact isView ⟨m', rfl⟩
          rw [made, List.map_nil, List.append_nil] at same
          rw [same, before, head]
          cases m with
          | newView m => exact absurd ⟨m, rfl⟩ isView
          | request m => rfl
          | ok m => rfl
          | newLeader m => rfl
      · apply suffices_eq
        have same := step.installed_eq fun l m' reading => by
          have mine := own l _ reading
          have only := g.single k l less (wired.opened_of_inbox (reads l _ reading)) foreign
            (mine.trans here.symm)
          exact received ⟨_, only ▸ reading⟩
        rw [made, List.map_nil, List.append_nil] at same
        rw [same, before, inbox k foreign fun m reading => received ⟨m, reading⟩]
    · have unread : s'.inbox k = s.inbox k :=
        inbox k foreign fun m reading => here (own k m reading)
      have same : s'.processes (s.owner k) = s.processes (s.owner k) :=
        (process _).trans (if_neg here)
      have equal : s'.heard k = s.heard k := by
        unfold World.heard
        rw [owner, same, unread]
      rw [equal, same]
      exact ⟨List.prefix_refl _, fun up => ⟨up, rfl⟩⟩

/-- The leader takes a step in which no view is made or sent. -/
theorem quiet (h : Tracked L s) (wired : Wired s)
    (processes : s'.processes = Function.update s.processes L next) (owner : s'.owner = s.owner)
    (opened : s'.opened = s.opened) (views : s'.views = s.views) (leading : next.Leading)
    (me : next.me = (s.processes L).me) (installed : next.installed = (s.processes L).installed)
    (listening : next.main.listening = false → (s.processes L).main.listening = false)
    (backlog : (s'.backlog L).Sublist (s.backlog L))
    (held : ∀ p k, next.service.tcpClientMap p = some k →
      (s.processes L).service.tcpClientMap p = some k ∨ k ∈ s.backlog L ∧ k ∉ s'.backlog L)
    (joining : ∀ p k, next.Joins p → next.service.tcpClientMap p = some k → ¬ s.Admitted k)
    (kept : ∀ p ∈ next.service.alivePeers, p ∈ (s.processes L).service.alivePeers ∧
      next.service.tcpClientMap p = (s.processes L).service.tcpClientMap p ∧
        next.owedViews p = (s.processes L).owedViews p)
    (inbox : ∀ k, s.owner k ≠ L → viewsIn (s'.inbox k) = viewsIn (s.inbox k)) : Tracked L s' := by
  have here : s'.processes L = next := by
    rw [processes, Function.update_self]
  have elsewhere : ∀ j, j ≠ L → s'.processes j = s.processes j := by
    intro j other
    rw [processes, Function.update_of_ne other]
  refine h.frame wired (by rw [here]; exact leading) (by rw [here]; exact installed)
    (by rw [here]; exact listening) views owner opened ?_ backlog (by rw [here]; exact held)
    (by rw [here]; exact joining) (by rw [here]; exact kept) ?_
  · intro k less
    by_cases own : s.owner k = L
    · rw [own, here, me]
    · rw [elsewhere _ own]
  · intro k less own
    have equal : s'.heard k = s.heard k := by
      unfold World.heard
      rw [owner, elsewhere _ own, inbox k own]
    rw [equal, elsewhere _ own]
    exact ⟨List.prefix_refl _, fun up => ⟨up, rfl⟩⟩

/-- A thread of the leader goes on in `modifyGroupMembership`. -/
theorem goOn (h : Tracked L s) (wired : Wired s) {t : Thread} {operation onward : Operation}
    {data : Process} (place : (s.processes L).operation t = some operation)
    (leading : (data.setOperation onward t).Leading) (change : onward.change = operation.change)
    (owes : ∀ p ∈ (s.processes L).service.alivePeers, onward.owesView p = operation.owesView p)
    (main : data.main = (s.processes L).main) (detector : data.detector = (s.processes L).detector)
    (me : data.me = (s.processes L).me) (installed : data.installed = (s.processes L).installed)
    (viewId : data.service.viewId = (s.processes L).service.viewId)
    (alivePeers : data.service.alivePeers = (s.processes L).service.alivePeers)
    (tcpClientMap : data.service.tcpClientMap = (s.processes L).service.tcpClientMap)
    (processes : s'.processes = Function.update s.processes L (data.setOperation onward t))
    (owner : s'.owner = s.owner) (opened : s'.opened = s.opened) (views : s'.views = s.views)
    (backlog : s'.backlog = s.backlog)
    (inbox : ∀ k, s.owner k ≠ L → viewsIn (s'.inbox k) = viewsIn (s.inbox k)) : Tracked L s' := by
  refine h.quiet wired processes owner opened views leading ((me_setOperation _ _ _).trans me)
    ((installed_setOperation _ _ _).trans installed) ?_ (by rw [backlog]) ?_ ?_ ?_ inbox
  · rcases h.leading.operation_cases place with ⟨rfl, here⟩ | ⟨rfl, here⟩
    · rw [setOperation_addPeer (main.trans here), here]
      exact id
    · exact fun deaf => (congrArg MainState.listening main).symm.trans deaf
  · rw [service_setOperation, tcpClientMap]
    exact fun p k found => Or.inl found
  · rw [service_setOperation, tcpClientMap]
    exact fun p k joins => h.joining p k ((joins_setOperation place main detector change p).mp joins)
  · rw [service_setOperation, tcpClientMap, alivePeers]
    intro p mem
    refine ⟨mem, rfl, ?_⟩
    have view : (data.setOperation onward t).service.installedView (data.setOperation onward t).me =
        (s.processes L).service.installedView (s.processes L).me := by
      unfold installedView getGroupMembers
      rw [service_setOperation, me_setOperation, me, viewId, alivePeers]
    unfold owedViews
    rw [view, h.leading.steady.owesView_setOperation place data main detector,
      owesView_of_place h.leading.steady place, owes p mem]

/-- Nobody is in the group before the leader listens. -/
theorem alone (h : Tracked L s) (deaf : (s.processes L).main.listening = false) (p : PeerId) :
    p ∉ (s.processes L).service.alivePeers := fun mem =>
  h.leading.alive p mem (h.leading.early deaf p)

/-- The leader goes on before it listens. -/
theorem searching (h : Tracked L s) (wired : Wired s)
    (deaf : (s.processes L).main.listening = false) (leading : next.Leading)
    (idle : next.operation .main = none) (me : next.me = (s.processes L).me)
    (installed : next.installed = (s.processes L).installed)
    (alivePeers : next.service.alivePeers = (s.processes L).service.alivePeers)
    (tcpClientMap : next.service.tcpClientMap = (s.processes L).service.tcpClientMap)
    (processes : s'.processes = Function.update s.processes L next) (owner : s'.owner = s.owner)
    (opened : s'.opened = s.opened) (views : s'.views = s.views) (backlog : s'.backlog = s.backlog)
    (inbox : s'.inbox = s.inbox) : Tracked L s' := by
  refine h.quiet wired processes owner opened views leading me installed (fun _ => deaf)
    (by rw [backlog]) ?_ ?_ ?_ (fun k _ => by rw [inbox])
  · rw [tcpClientMap]
    exact fun p k found => Or.inl found
  · exact fun p k joins => absurd joins (not_joins_of_idle idle p)
  · rw [alivePeers]
    exact fun p mem => absurd mem (h.alone deaf p)

/-- The first block of a deletion. -/
theorem beginDeletion (h : Tracked L s) (wired : Wired s) {m : RequestMsg}
    (place : (s.processes L).detector = some (.lock m)) (deletes : m.operationType = .DEL)
    (goes : ((s.processes L).beginOperation m).setOperation (.sendRequestMsg m
      ((s.processes L).beginOperation m).service.alivePeers.toList) .detector = next)
    (leading : next.Leading) (processes : s'.processes = Function.update s.processes L next)
    (owner : s'.owner = s.owner) (opened : s'.opened = s.opened) (views : s'.views = s.views)
    (backlog : s'.backlog = s.backlog) (inbox : s'.inbox = s.inbox) : Tracked L s' := by
  have steady := h.leading.steady
  have at_lock : (s.processes L).operation .detector = some (.lock m) := place
  have service : next.service =
      { (s.processes L).service with
        tcpClientMap := Function.update (s.processes L).service.tcpClientMap m.peerId none
        alivePeers := (s.processes L).service.alivePeers.erase m.peerId } := by
    rw [← goes, service_setOperation]
    exact if_pos deletes
  have owes : ∀ p, (s.processes L).owedViews p = [] ∧ next.owedViews p = [] := by
    intro p
    have before : (s.processes L).owesView p = false := owesView_of_place steady at_lock p
    have after : next.owesView p = false := by
      rw [← goes]
      exact steady.owesView_setOperation at_lock ((s.processes L).beginOperation m) rfl rfl p
    unfold owedViews
    rw [before, after]
    exact ⟨rfl, rfl⟩
  have idle : next.operation .main = none := by
    rw [← goes]
    exact steady.alone at_lock
  refine h.quiet wired processes owner opened views leading ?_ ?_ ?_ (by rw [backlog]) ?_ ?_ ?_
    (fun k _ => by rw [inbox])
  · rw [← goes]
    rfl
  · rw [← goes]
    rfl
  · rw [← goes]
    exact id
  · intro p k found
    left
    rw [service] at found
    dsimp only at found
    rw [Function.update_apply] at found
    split at found
    · cases found
    · exact found
  · exact fun p k joins => absurd joins (not_joins_of_idle idle p)
  · intro p mem
    rw [service] at mem ⊢
    obtain ⟨before, other⟩ := OrderedSet.mem_erase.mp mem
    exact ⟨before, Function.update_of_ne other _ _, (owes p).2.trans (owes p).1.symm⟩

/-- The new view. -/
theorem newView (h : Tracked L s) (wired : Wired s) {t : Thread} {m : RequestMsg}
    (place : (s.processes L).operation t = some (.waitForOkMsg m []))
    (leading : (((s.processes L).endOperation m).setOperation .printNewlyInstalledView t).Leading) :
    Tracked L { s.setProcess L
        (((s.processes L).endOperation m).setOperation .printNewlyInstalledView t) with
      views := s.views ++ [(s.processes L).creation m] } := by
  have steady := h.leading.steady
  have deletes : t = .detector → m.operationType = .DEL := by
    rintro rfl
    exact (wired.sound L).deletes _ place (m.peerId, m.operationType) rfl
  have adds : m.operationType = .ADD → (s.processes L).Joins m.peerId := by
    intro adds
    cases t with
    | detector =>
        rw [deletes rfl] at adds
        cases adds
    | main =>
        refine ⟨_, place, ?_⟩
        rw [← adds]
        rfl
  refine h.made wired leading (me_setOperation _ _ _) (installed_setOperation _ _ _) ?_ ?_
    (steady.not_joins place ((s.processes L).endOperation m) rfl rfl rfl) ?_ ?_ ?_ ?_ ?_ ?_
  · intro deaf
    rcases h.leading.operation_cases place with ⟨rfl, here⟩ | ⟨rfl, here⟩
    · have ending : ((s.processes L).endOperation m).main = .addPeer (.waitForOkMsg m []) := here
      rw [setOperation_addPeer ending] at deaf
      cases deaf
    · refine ⟨deaf, if_neg ?_⟩
      rw [deletes rfl]
      exact fun same => by cases same
  · rw [service_setOperation]
    rfl
  · rw [service_setOperation, me_setOperation]
    rfl
  · intro _ _
    rw [service_setOperation]
    rfl
  · intro k added
    change (if m.operationType = .ADD then _ else none) = some k at added
    split at added
    · rename_i isAddition
      exact ⟨m.peerId, adds isAddition, added⟩
    · cases added
  · intro p mem
    rw [service_setOperation] at mem
    change p ∈ (if m.operationType = .ADD then _ else _) at mem
    split at mem
    · rename_i isAddition
      rcases OrderedSet.mem_insert.mp mem with rfl | before
      · exact Or.inr (if_pos isAddition)
      · exact Or.inl before
    · exact Or.inl mem
  · exact fun p _ => owesView_of_place steady place p
  · exact fun p _ =>
      steady.owesView_setOperation place ((s.processes L).endOperation m) rfl rfl p

/-- The leader begins to accept. -/
theorem startAsLeader (h : Tracked L s) (wired : Wired s)
    (place : (s.processes L).main = .startAsLeader)
    (leading : Leading { (s.processes L).install with main := .accept }) :
    Tracked L { s.setProcess L { (s.processes L).install with main := .accept } with
      views := s.views ++ [⟨(s.processes L).service.installedView (s.processes L).me, none⟩] } := by
  have deaf : (s.processes L).main.listening = false := by
    rw [place]
    rfl
  refine h.made wired leading rfl rfl (fun deaf => by cases deaf) rfl
    (not_joins_of_idle rfl) rfl ?_ (fun _ added => by cases added) ?_ ?_ ?_
  · exact fun k now => absurd now (h.early deaf k)
  · exact fun p mem => absurd mem (h.alone deaf p)
  · exact fun p mem => absurd mem (h.alone deaf p)
  · exact fun p mem => absurd mem (h.alone deaf p)

theorem delivered (h : Tracked L s) (wired : Wired s) {t : Thread} {m : NewViewMsg}
    (place : (s.processes L).operation t = some (.deliver m []))
    (goes : (s.processes L).finishOperation t = next) (leading : next.Leading)
    (processes : s'.processes = Function.update s.processes L next) (owner : s'.owner = s.owner)
    (opened : s'.opened = s.opened) (views : s'.views = s.views) (backlog : s'.backlog = s.backlog)
    (inbox : s'.inbox = s.inbox) : Tracked L s' := by
  have steady := h.leading.steady
  have owes : ∀ p, (s.processes L).owedViews p = [] ∧ next.owedViews p = [] := by
    intro p
    have before : (s.processes L).owesView p = false := owesView_of_place steady place p
    have after : next.owesView p = false := by
      rw [← goes]
      exact steady.owesView_finishOperation place p
    unfold owedViews
    rw [before, after]
    exact ⟨rfl, rfl⟩
  obtain ⟨leaderPeerId, service⟩ := service_finishOperation (s.processes L) t
  rw [goes] at service
  have idle : next.operation .main = none := by
    rw [← goes, operation_finishOperation place]
    split
    · rfl
    · rename_i other
      rw [Thread.eq_other other]
      exact steady.alone place
  refine h.quiet wired processes owner opened views leading ?_ ?_ ?_ (by rw [backlog]) ?_ ?_ ?_
    (fun k _ => by rw [inbox])
  · rw [← goes]
    exact me_finishOperation _ _
  · rw [← goes]
    exact installed_finishOperation _ _
  · rw [← goes]
    rcases h.leading.operation_cases place with ⟨rfl, here⟩ | ⟨rfl, here⟩
    · rw [finishOperation_addPeer here]
      exact fun deaf => by cases deaf
    · exact id
  · rw [service]
    exact fun p k found => Or.inl found
  · exact fun p k joins => absurd joins (not_joins_of_idle idle p)
  · rw [service]
    exact fun p mem => ⟨mem, rfl, (owes p).2.trans (owes p).1.symm⟩

/-- The leader takes a step by itself. -/
theorem silent (h : Tracked L s) (wired : Wired s) {t : Thread} {created : List Creation}
    (step : ThreadStep (s.processes L) t (.silent created) next) (leading : next.Leading)
    (up : next.running = true) :
    Tracked L { s.setProcess L next with views := s.views ++ created } := by
  have elsewhere {place : MainState} (here : (s.processes L).main = place)
      (other : place.heads = false) : False := by
    have heads := h.leading.place
    rw [here, other] at heads
    cases heads
  have nothing : s.views ++ [] = s.views := List.append_nil _
  cases step with
  | dies _ => cases up
  | call place =>
      exact h.goOn wired place leading rfl (fun _ _ => rfl) rfl rfl rfl rfl rfl rfl rfl rfl rfl rfl
        nothing rfl fun _ _ => rfl
  | @lock t m place free =>
      by_cases deletes : m.operationType = .DEL
      · rcases h.leading.operation_cases place with ⟨rfl, here⟩ | ⟨rfl, here⟩
        · have adds := h.leading.adds _ (m.peerId, m.operationType) place rfl
          rw [deletes] at adds
          cases adds
        · exact h.beginDeletion wired here deletes rfl leading rfl rfl rfl nothing rfl rfl
      · have service : ((s.processes L).beginOperation m).service = (s.processes L).service :=
          if_neg deletes
        exact h.goOn wired place leading rfl (fun _ _ => rfl) rfl rfl rfl rfl (by rw [service])
          (by rw [service]) (by rw [service]) rfl rfl rfl nothing rfl fun _ _ => rfl
  | requestsSent place =>
      exact h.goOn wired place leading rfl (fun _ _ => rfl) rfl rfl rfl rfl rfl rfl rfl rfl rfl rfl
        nothing rfl fun _ _ => rfl
  | newView place => exact h.newView wired place leading
  | printNewlyInstalledView place free =>
      exact h.goOn wired place leading rfl (fun _ _ => rfl) rfl rfl rfl rfl rfl rfl rfl rfl rfl rfl
        nothing rfl fun _ _ => rfl
  | sendNewViewMsg place =>
      exact h.goOn wired place leading rfl (fun _ _ => rfl) rfl rfl rfl rfl rfl rfl rfl rfl rfl rfl
        nothing rfl fun _ _ => rfl
  | lockView place free =>
      exact h.goOn wired place leading rfl (fun _ mem => decide_eq_true mem) rfl rfl rfl rfl rfl rfl
        rfl rfl rfl rfl nothing rfl fun _ _ => rfl
  | delivered place => exact h.delivered wired place rfl leading rfl rfl rfl nothing rfl rfl
  | skipMyself place =>
      exact h.searching wired (by rw [place]; rfl) leading rfl rfl rfl rfl rfl rfl rfl rfl nothing
        rfl rfl
  | noLeaderFound place =>
      exact h.searching wired (by rw [place]; rfl) leading rfl rfl rfl rfl rfl rfl rfl rfl nothing
        rfl rfl
  | startAsLeader place free => exact h.startAsLeader wired place leading
  | waitForLeaderCrash place _ => exact (elsewhere place rfl).elim
  | handleLeaderCrash place _ => exact (elsewhere place rfl).elim
  | reconnected place => exact (elsewhere place rfl).elim
  | notConnected place _ => exact (elsewhere place rfl).elim
  | completeRequest place _ => exact (elsewhere place rfl).elim
  | nothingPending place _ => exact (elsewhere place rfl).elim

/-- The leader sends a message. -/
theorem sent (h : Tracked L s) (wired : Wired s) {t : Thread} {client : Socket} {m : Msg}
    (step : ThreadStep (s.processes L) t (.sent client m) next) (leading : next.Leading) :
    Tracked L ((s.deliver client.peer m).setProcess L next) := by
  have elsewhere {place : MainState} (here : (s.processes L).main = place)
      (other : place.heads = false) : False := by
    have heads := h.leading.place
    rw [here, other] at heads
    cases heads
  cases step with
  | dies fatal => cases fatal
  | @sendRequestMsg _ m _ _ _ place found =>
      refine h.goOn wired place leading rfl (fun _ _ => rfl) rfl rfl rfl rfl rfl rfl rfl rfl rfl rfl
        rfl rfl ?_
      intro k _
      change viewsIn (Function.update s.inbox client.peer (s.inbox client.peer ++ [_]) k) = _
      rw [Function.update_apply]
      split
      · rename_i same
        rw [viewsIn_append, same]
        exact List.append_nil _
      · rfl
  | deliver place found => exact h.deliver wired place found leading
  | sendOkMsg place _ => exact (elsewhere place rfl).elim
  | introduce place => exact (elsewhere place rfl).elim
  | sendPendingRequestMsg place _ => exact (elsewhere place rfl).elim

/-- The leader reads an answer. -/
theorem received (h : Tracked L s) (wired : Wired s) {t : Thread} {client : Socket} {m : Msg}
    {rest : List Msg} (step : ThreadStep (s.processes L) t (.received client m) next)
    (own : s.owner client = L) (leading : next.Leading) (up : next.running = true) :
    Tracked L ({ s with inbox := Function.update s.inbox client rest }.setProcess L next) := by
  have elsewhere {place : MainState} (here : (s.processes L).main = place)
      (other : place.heads = false) : False := by
    have heads := h.leading.place
    rw [here, other] at heads
    cases heads
  cases step with
  | dies _ => cases up
  | waitForOkMsg place found expected =>
      refine h.goOn wired place leading rfl (fun _ _ => rfl) rfl rfl rfl rfl rfl rfl rfl rfl rfl rfl
        rfl rfl ?_
      intro k foreign
      change viewsIn (Function.update s.inbox client rest k) = _
      rw [Function.update_of_ne]
      rintro rfl
      exact foreign own
  | followerReceives place _ _ => exact (elsewhere place rfl).elim
  | pendingRequest place _ => exact (elsewhere place rfl).elim
  | greet place => exact (elsewhere place rfl).elim

/-- The leader accepts a process that is not in its group. -/
theorem accepted (h : Tracked L s) (wired : Wired s) {t : Thread} {close : Bool}
    {client : Socket} {peer : PeerId} {rest : List Socket} (head : s.backlog L = client :: rest)
    (step : ThreadStep (s.processes L) t (.accepted close client peer) next)
    (idle : (s.processes L).detector = none)
    (outside : peer ∉ (s.processes L).service.alivePeers) (leading : next.Leading) :
    close = false ∧ Tracked L ((s.acceptConnection L close rest).setProcess L next) := by
  have elsewhere {place : MainState} (here : (s.processes L).main = place)
      (other : place.heads = false) : False := by
    have heads := h.leading.place
    rw [here, other] at heads
    cases heads
  have waits : client ∈ s.backlog L := by
    rw [head]
    exact List.mem_cons_self
  have nodup := h.queue
  rw [head, List.nodup_cons] at nodup
  cases step with
  | dies fatal => cases fatal
  | waitForNewLeaderMsg place => exact (elsewhere place rfl).elim
  | accept place =>
      have tcpClientMap : ∀ p,
          ((s.processes L).service.insertClient peer client).tcpClientMap p =
            if p = peer then some client else (s.processes L).service.tcpClientMap p :=
        (h.leading.accept place idle outside).2
      have backlog : ((s.acceptConnection L false rest).setProcess L
          { s.processes L with
            service := (s.processes L).service.insertClient peer client
            main := .addPeer (.call peer .ADD) }).backlog L = rest := Function.update_self _ _ _
      refine ⟨rfl, h.quiet wired rfl rfl rfl rfl leading rfl rfl (fun deaf => by cases deaf)
        ?_ ?_ ?_ ?_ fun _ _ => rfl⟩
      · rw [backlog, head]
        exact List.sublist_cons_self _ _
      · intro p k found
        change ((s.processes L).service.insertClient peer client).tcpClientMap p = some k at found
        rw [tcpClientMap] at found
        split at found
        · cases found
          right
          rw [backlog]
          exact ⟨waits, nodup.1⟩
        · exact Or.inl found
      · rintro p k ⟨_, here, adds⟩ found
        cases here
        cases adds
        change ((s.processes L).service.insertClient peer client).tcpClientMap peer = some k at found
        rw [tcpClientMap, if_pos rfl] at found
        cases found
        exact h.waiting client waits
      · intro p mem
        refine ⟨mem, ?_, ?_⟩
        · change ((s.processes L).service.insertClient peer client).tcpClientMap p = _
          rw [tcpClientMap, if_neg]
          rintro rfl
          exact outside mem
        · have before : (s.processes L).operation .main = none :=
            operation_of_idle (by rw [place]; rfl)
          unfold owedViews owesView
          rw [before]
          rfl

/-- A process starts. -/
theorem start (h : Tracked L s) (wired : Wired s)
    (unstarted : ∀ i, s.started ≤ i → s.processes i = { me := 0 }) {p : PeerId}
    {hosts : List PeerId}
    (processes : s'.processes =
      Function.update s.processes s.started { me := p, main := .findLeader hosts })
    (owner : s'.owner = s.owner) (opened : s'.opened = s.opened) (views : s'.views = s.views)
    (backlog : s'.backlog = s.backlog) (inbox : s'.inbox = s.inbox) : Tracked L s' := by
  have kept : ∀ k : Socket, k.connection < s.opened →
      s'.processes (s.owner k) = s.processes (s.owner k) := by
    intro k less
    rw [processes, Function.update_of_ne (Nat.ne_of_lt (wired.owners k less))]
  have me : ∀ k : Socket, k.connection < s.opened →
      (s'.processes (s.owner k)).me = (s.processes (s.owner k)).me := fun k less =>
    congrArg Process.me (kept k less)
  have heard : ∀ k : Socket, k.connection < s.opened → s.owner k ≠ L →
      s'.heard k <+: s.heard k ∧ ((s'.processes (s.owner k)).running = true →
        (s.processes (s.owner k)).running = true ∧ s'.heard k = s.heard k) := by
    intro k less _
    have equal : s'.heard k = s.heard k := by
      unfold World.heard
      rw [owner, inbox, kept k less]
    rw [equal, kept k less]
    exact ⟨List.prefix_refl _, fun up => ⟨up, rfl⟩⟩
  by_cases here : L = s.started
  · have before : s.processes L = { me := 0 } := unstarted L (here ▸ Nat.le_refl _)
    have now : s'.processes L = { me := p, main := .findLeader hosts } := by
      rw [processes, here, Function.update_self]
    refine h.frame wired ?_ ?_ ?_ views owner opened me (by rw [backlog]) ?_ ?_ ?_ heard
    · rw [now]
      exact .fresh rfl rfl rfl rfl rfl rfl
    · rw [now, before]
    · intro _
      rw [before]
      rfl
    · intro q k found
      rw [now] at found
      cases found
    · intro q k joins
      rw [now] at joins
      exact absurd joins (not_joins_of_idle rfl q)
    · intro q mem
      rw [now] at mem
      exact absurd mem (OrderedSet.notMem_empty q)
  · refine h.bystander wired ?_ views owner opened me backlog heard
    rw [processes, Function.update_of_ne here]

/-- A follower connects to the leader. -/
theorem connected (h : Tracked L s) (g : Gathered L s) (wired : Wired s) {t : Thread}
    {peer : PeerId} (step : ThreadStep (s.processes i) t (.connected peer s.nextSocket) next)
    (apart : i ≠ L) : Tracked L ((s.openConnection i L).setProcess i next) := by
  let s' : World := (s.openConnection i L).setProcess i next
  change Tracked L s'
  obtain ⟨rest, searching⟩ : ∃ rest, (s.processes i).main = .findLeader rest := by
    cases step with
    | dies fatal => cases fatal
    | leaderFound place other => exact ⟨_, place⟩
    | reconnect place =>
        have joins := (g.others i apart).1
        rw [place] at joins
        cases joins
  have unconnected := g.searching i apart rest searching
  have nothing : next.installed = [] := by
    rw [step.installed_eq fun k m same => by cases same]
    by_contra some
    obtain ⟨k, less, own⟩ := g.source i apart fun none => some (by rw [none]; rfl)
    exact unconnected k less own
  obtain ⟨own, own'⟩ := Wired.owner_openConnection_next (s := s) i L
  have old : ∀ k : Socket, k.connection < s.opened → s'.owner k = s.owner k := fun k less =>
    Wired.owner_openConnection less
  have process : ∀ j, j ≠ i → s'.processes j = s.processes j := fun j other =>
    Function.update_of_ne other _ _
  have leader : s'.processes L = s.processes L := process L apart.symm
  have heard : ∀ k : Socket, k.connection < s.opened → s'.heard k = s.heard k := by
    intro k less
    obtain ⟨notNext, notPeer⟩ := Wired.next_ne less
    have inbox : s'.inbox k = s.inbox k := by
      change Function.update (Function.update s.inbox s.nextSocket []) s.nextSocket.peer [] k = _
      rw [Function.update_of_ne notPeer, Function.update_of_ne notNext]
    unfold World.heard
    rw [old k less, process _ (unconnected k less), inbox]
  have backlog : s'.backlog L = s.backlog L ++ [s.nextSocket.peer] := Function.update_self _ _ _
  have isNew : ∀ k : Socket, k.connection < s.opened → k ≠ s.nextSocket.peer := fun k less =>
    (Wired.next_ne less).2
  constructor
  · rw [leader]
    exact h.leading
  · rw [leader]
    exact h.own
  · intro k now
    obtain ⟨less, own⟩ := h.known k now
    exact ⟨Nat.lt_succ_of_lt less, (old k less).trans own⟩
  · rw [leader]
    exact h.early
  · rw [backlog]
    refine h.queue.append (List.nodup_singleton _) ?_
    intro k waits new
    exact isNew k (wired.waiting L k waits).1 (List.mem_singleton.mp new)
  · rw [backlog, leader]
    intro k waits p found
    rcases List.mem_append.mp waits with before | new
    · exact h.unused k before p found
    · exact isNew k (wired.held L p k (Or.inl found)).1 (List.mem_singleton.mp new)
  · rw [backlog]
    intro k waits now
    rcases List.mem_append.mp waits with before | new
    · exact h.waiting k before now
    · exact isNew k (h.known k now).1 (List.mem_singleton.mp new)
  · rw [leader]
    exact h.joining
  · intro k less own'' outside
    rcases Wired.socket_cases less with before | rfl | rfl
    · rw [heard k.peer before]
      exact h.unadmitted k before ((old k before).symm.trans own'') outside
    · exact absurd (own.symm.trans own'') apart
    · have new : s'.inbox s.nextSocket = [] := by
        change Function.update (Function.update s.inbox s.nextSocket []) s.nextSocket.peer [] _ = _
        rw [Function.update_of_ne (Socket.peer_ne _).symm, Function.update_self]
      have here : s'.processes (s'.owner s.nextSocket) = next := by
        change Function.update s.processes i next ((s.openConnection i L).owner s.nextSocket) = _
        rw [own, Function.update_self]
      rw [Socket.peer_peer]
      unfold World.heard
      rw [here, nothing, new]
      exact ite_self _
  · intro n creation k made added
    rw [heard k.peer (h.known k ⟨creation, List.mem_of_getElem? made, added⟩).1]
    exact h.segment n creation k made added
  · rw [leader]
    intro p mem k found
    obtain ⟨now, all⟩ := h.complete p mem k found
    obtain ⟨less, _⟩ := h.known k now
    refine ⟨now, ?_⟩
    rw [heard k.peer less, old k.peer less, process _ (unconnected k.peer less)]
    exact all
  · exact h.consecutive
  · intro k now
    obtain ⟨less, _⟩ := h.known k now
    rw [heard k.peer less, old k.peer less, process _ (unconnected k.peer less), leader]
    exact h.contains k now

/-- The failure detector of the leader does something. -/
theorem detects (h : Tracked L s) (wired : Wired s) (leading : next.Leading)
    (main : next.main = (s.processes L).main) (me : next.me = (s.processes L).me)
    (installed : next.installed = (s.processes L).installed)
    (viewId : next.service.viewId = (s.processes L).service.viewId)
    (alivePeers : next.service.alivePeers = (s.processes L).service.alivePeers)
    (tcpClientMap : next.service.tcpClientMap = (s.processes L).service.tcpClientMap)
    (owes : ∀ p, next.owesView p = (s.processes L).owesView p) :
    Tracked L (s.setProcess L next) := by
  have joins : ∀ p, next.Joins p → (s.processes L).Joins p := by
    intro p
    unfold Joins operation
    rw [main]
    exact id
  refine h.quiet wired rfl rfl rfl rfl leading me installed ?_ (List.Sublist.refl _) ?_ ?_ ?_
    fun _ _ => rfl
  · rw [main]
    exact id
  · rw [tcpClientMap]
    exact fun p k found => Or.inl found
  · rw [tcpClientMap]
    exact fun p k now => h.joining p k (joins p now)
  · rw [tcpClientMap, alivePeers]
    intro p mem
    refine ⟨mem, rfl, ?_⟩
    unfold owedViews installedView getGroupMembers
    rw [owes, viewId, alivePeers, me]

/-- A follower changes in nothing that the others see. -/
theorem unseen (h : Tracked L s) (wired : Wired s) (apart : i ≠ L)
    (me : next.me = (s.processes i).me) (running : next.running = (s.processes i).running)
    (installed : next.installed = (s.processes i).installed) :
    Tracked L (s.setProcess i next) := by
  have process : ∀ j, (s.setProcess i next).processes j = if j = i then next else s.processes j :=
    fun j => Function.update_apply _ _ _ _
  have same : ∀ j, ((s.setProcess i next).processes j).me = (s.processes j).me ∧
      ((s.setProcess i next).processes j).running = (s.processes j).running ∧
        ((s.setProcess i next).processes j).installed = (s.processes j).installed := by
    intro j
    rw [process]
    split
    · rename_i here
      rw [here]
      exact ⟨me, running, installed⟩
    · exact ⟨rfl, rfl, rfl⟩
  refine h.bystander wired ((process L).trans (if_neg apart.symm)) rfl rfl rfl
    (fun k _ => (same _).1) rfl ?_
  intro k _ _
  obtain ⟨_, up, views⟩ := same (s.owner k)
  have equal : (s.setProcess i next).heard k = s.heard k := by
    unfold World.heard
    change (((s.setProcess i next).processes (s.owner k)).installed ++ if
      ((s.setProcess i next).processes (s.owner k)).running then viewsIn (s.inbox k) else []) = _
    rw [views, up]
  rw [equal, up]
  exact ⟨List.prefix_refl _, fun up => ⟨up, rfl⟩⟩

end Tracked

end GroupComm.Lab2
