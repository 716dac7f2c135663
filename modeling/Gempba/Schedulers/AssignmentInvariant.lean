import Gempba.Schedulers.Assignment

/-!
# The joint invariant of coordinator and workers

Between two reports every worker is at one of six stages, and the state the
coordinator keeps for it lags behind in a fixed way. A rank waits in the list
of one worker only, and stays quiet until it is fed.
-/

namespace Gempba.Assignment

set_option autoImplicit false

variable {W : World} {s t : State W} {v v' : Coordinator.View W}

/-- From the last processed report of a worker to the next one. -/
inductive Stage where
  | quiet | fed | started | stopped | running | ended
  deriving DecidableEq, Repr

namespace Stage

def phase : Stage → WorkerPhase
  | .started | .running => .executing
  | _ => .receiving

def notices : Stage → List StateTag
  | .started => [.RUNNING_STATE]
  | .stopped => [.RUNNING_STATE, .AVAILABLE_STATE]
  | .ended => [.AVAILABLE_STATE]
  | _ => []

def inFlight : Stage → ℕ
  | .fed => 1
  | _ => 0

/-- What the coordinator believes of a rank at this stage; `waited` says that some worker
has fed it and its `RUNNING_STATE` is awaited. Only the seed's rank is awaited by nobody. -/
def Believed (state : ProcessState) (waited : Prop) : Stage → Prop
  | .quiet => state ≠ .RUNNING_STATE ∧ ¬ waited
  | .fed | .started | .stopped => state = .RUNNING_STATE ∨ state = .ASSIGNED_STATE ∧ waited
  | .running | .ended => state = .RUNNING_STATE

end Stage

structure AtStage (s : State W) (q : WorkerRank W) (g : Stage) : Prop where
  phase : (s.worker q).phase = g.phase
  notices : s.notices q = g.notices
  inFlight : tasksTo q s.tasks = g.inFlight

/-- Some worker has sent `q` a task that `q` has not yet reported. -/
def State.Waited (s : State W) (q : WorkerRank W) : Prop := ∃ p, q ∈ s.fed p

/-- The ranks the center has assigned to `w`, oldest first, as the processes know them. -/
def State.assigned (s : State W) (w : WorkerRank W) : List (Rank W) :=
  (s.fed w).map Subtype.val ++ (s.pending w).map Subtype.val ++ (s.nextProcess w).flatten

/-- The children of one worker at the center, the ranks it has fed, the messages in flight
to it and its outbox. -/
structure Agrees (children : List (Rank W)) (fed : List (WorkerRank W))
    (channel : List (List (Rank W))) (o : SemiOutbox (WorkerRank W)) : Prop where
  assigned : children = fed.map Subtype.val ++ (pendingRanks o.nextProcesses).map Subtype.val ++
    channel.flatten
  channel : channel = [] ∨ pendingRanks o.nextProcesses = [] ∧ ∃ m, m ≠ [] ∧ channel = [m]
  vector : ∃ k, o.nextProcesses = packed (pendingRanks o.nextProcesses) k ∧
    (pendingRanks o.nextProcesses).length + k = W.size
  cached : o.nextProcess = none ∨ o.nextProcess = (pendingRanks o.nextProcesses).head?

structure Agreement (s : State W) (v : Coordinator.View W) : Prop where
  consistent : v.Consistent
  center : v.family.parent W.center = none
  lists : ∀ w : WorkerRank W,
    Agrees (v.family.children w) (s.fed w) (s.nextProcess w) (s.worker w).outbox
  stage : ∀ q, ∃ g, AtStage s q g ∧ g.Believed (v.state q) (s.Waited q)

theorem map_asWorkers {m : List (Rank W)} (hm : ∀ r ∈ m, r ≠ W.center) :
    (asWorkers m).map Subtype.val = m := by
  induction m with
  | nil => rfl
  | cons r m ih =>
    have hr : r ≠ W.center := hm r (by simp)
    have hrest := ih fun x hx => hm x (by simp [hx])
    simp only [asWorkers, List.filterMap_cons, dif_pos hr, List.map_cons] at hrest ⊢
    rw [hrest]

namespace Agrees

variable {children : List (Rank W)} {fed : List (WorkerRank W)} {channel : List (List (Rank W))}
  {o : SemiOutbox (WorkerRank W)}

theorem ofPacked {xs : List (WorkerRank W)} {k : ℕ} (ho : o.nextProcesses = packed xs k)
    (hk : xs.length + k = W.size)
    (hassigned : children = fed.map Subtype.val ++ xs.map Subtype.val ++ channel.flatten)
    (hchannel : channel = [] ∨ xs = [] ∧ ∃ m, m ≠ [] ∧ channel = [m])
    (hcached : o.nextProcess = none ∨ o.nextProcess = xs.head?) :
    Agrees children fed channel o := by
  have hxs : pendingRanks o.nextProcesses = xs := by rw [ho, pendingRanks_packed]
  exact ⟨by rwa [hxs], by rwa [hxs], ⟨k, by rwa [hxs], by rwa [hxs]⟩, by rwa [hxs]⟩

theorem refreshed (h : Agrees children fed channel o) :
    Agrees children fed channel (o.pollSection none) := by
  obtain ⟨k, hvector, hk⟩ := h.vector
  refine ofPacked hvector hk h.assigned h.channel (Or.inr ?_)
  simp only [SemiOutbox.pollSection, SemiOutbox.updateNextProcess]
  rw [hvector, head?_join_packed, pendingRanks_packed]

theorem empty {m : List (Rank W)} {rest : List (List (Rank W))}
    (h : Agrees children fed (m :: rest) o) :
    rest = [] ∧ pendingRanks o.nextProcesses = [] ∧ children = fed.map Subtype.val ++ m ∧
      o.nextProcesses = packed [] W.size := by
  obtain hnone | ⟨hpending, m', _, hone⟩ := h.channel
  · cases hnone
  · obtain ⟨rfl, rfl⟩ : m = m' ∧ rest = [] := by simpa using hone
    obtain ⟨k, hvector, hk⟩ := h.vector
    have hassigned := h.assigned
    rw [hpending] at hvector hk hassigned
    exact ⟨rfl, hpending, by simpa using hassigned, by simpa [← hk] using hvector⟩

/-- The ranks of a message move into the list; the next process is refreshed now or later. -/
theorem received {m : List (Rank W)} {rest : List (List (Rank W))}
    (h : Agrees children fed (m :: rest) o) (hm : ∀ r ∈ children, r ≠ W.center)
    (hnodup : children.Nodup) :
    Agrees children fed rest (o.pollSection (some (asWorkers m))) ∧
      Agrees children fed rest (o.receiveNextProcess (asWorkers m)) := by
  obtain ⟨rfl, hpending, hassigned, hempty⟩ := h.empty
  have hmap : (asWorkers m).map Subtype.val = m :=
    map_asWorkers fun r hr => hm r (by simp [hassigned, hr])
  have hlength : (asWorkers m).length ≤ W.size := by
    rw [hassigned] at hnodup
    rw [← List.length_map (f := Subtype.val), hmap]
    simpa using (List.nodup_append.mp hnodup).2.1.length_le_card
  have hpacked := SemiOutbox.receiveNextProcess_packed hempty (asWorkers m)
  have hchildren : children = fed.map Subtype.val ++ (asWorkers m).map Subtype.val ++
      ([] : List (List (Rank W))).flatten := by simp [hassigned, hmap]
  constructor
  · refine ofPacked hpacked (by omega) hchildren (Or.inl rfl) (Or.inr ?_)
    simp only [SemiOutbox.pollSection, SemiOutbox.updateNextProcess]
    rw [hpacked, head?_join_packed]
  · refine ofPacked hpacked (by omega) hchildren (Or.inl rfl) (Or.inl ?_)
    have hcached := h.cached
    rw [hpending] at hcached
    simpa [SemiOutbox.receiveNextProcess] using hcached

end Agrees

namespace Agreement

theorem assigned (h : Agreement s v) (w : WorkerRank W) : v.family.children w = s.assigned w :=
  (h.lists w).assigned

theorem parent_of_mem (h : Agreement s v) {w : WorkerRank W} {r : Rank W}
    (hr : r ∈ s.assigned w) : v.family.parent r = some w.val :=
  (v.family.mem_children w r).mp (h.assigned w ▸ hr)

theorem disjoint (h : Agreement s v) {p q : WorkerRank W} {r : Rank W} (hp : r ∈ s.assigned p)
    (hq : r ∈ s.assigned q) : p = q :=
  Subtype.ext (Option.some.inj ((h.parent_of_mem hp).symm.trans (h.parent_of_mem hq)))

theorem nodup (h : Agreement s v) (w : WorkerRank W) : (s.assigned w).Nodup :=
  h.assigned w ▸ v.family.nodup w

theorem child_ne_center (h : Agreement s v) {w : WorkerRank W} {r : Rank W}
    (hr : r ∈ v.family.children w) : r ≠ W.center := by
  rintro rfl
  rw [v.family.mem_children, h.center] at hr
  cases hr

theorem mem_assigned_of_fed {w r : WorkerRank W} (hr : r ∈ s.fed w) : r.val ∈ s.assigned w := by
  simp only [State.assigned, List.append_assoc]
  exact List.mem_append_left _ (List.mem_map_of_mem hr)

theorem mem_assigned_of_pending {w r : WorkerRank W} (hr : r ∈ s.pending w) :
    r.val ∈ s.assigned w :=
  List.mem_append_left _ (List.mem_append_right _ (List.mem_map_of_mem hr))

theorem state_of_mem (h : Agreement s v) {w : WorkerRank W} {r : Rank W}
    (hr : r ∈ s.assigned w) : v.state r = .ASSIGNED_STATE :=
  (h.consistent.assigned r).mpr (by simp [h.parent_of_mem hr])

theorem quiet_of_pending (h : Agreement s v) {w r : WorkerRank W} (hr : r ∈ s.pending w) :
    AtStage s r .quiet ∧ ¬ s.Waited r := by
  have hmem := mem_assigned_of_pending hr
  have hstate := h.state_of_mem hmem
  have hfree : ¬ s.Waited r := by
    rintro ⟨p, hp⟩
    have hpw := h.disjoint (mem_assigned_of_fed hp) hmem
    subst hpw
    have hnodup := h.nodup p
    simp only [State.assigned, List.append_assoc] at hnodup
    exact (List.nodup_append.mp hnodup).2.2 _ (List.mem_map_of_mem hp) _
      (List.mem_append_left _ (List.mem_map_of_mem hr)) rfl
  obtain ⟨g, hg, hbelieved⟩ := h.stage r
  cases g <;> simp_all [Stage.Believed]

/-! ## Steps of a worker -/

theorem phase_setOutbox {w : WorkerRank W} {o : SemiOutbox (WorkerRank W)} (x : WorkerRank W) :
    ((s.setOutbox w o).worker x).phase = (s.worker x).phase := by
  by_cases hx : x = w
  · subst hx
    simp [State.setOutbox, State.setWorker]
  · simp [State.setOutbox, State.setWorker, hx]

theorem setInbox (h : Agreement s v) {w : WorkerRank W} {o : SemiOutbox (WorkerRank W)}
    {channel : List (List (Rank W))} (hw : Agrees (v.family.children w) (s.fed w) channel o) :
    Agreement (s.setInbox w o channel) v := by
  refine ⟨h.consistent, h.center, fun x => ?_, fun q => ?_⟩
  · by_cases hx : x = w
    · subst hx
      simpa [State.setInbox, State.setOutbox, State.setWorker] using hw
    · simpa [State.setInbox, State.setOutbox, State.setWorker, hx] using h.lists x
  · obtain ⟨g, hg, hbelieved⟩ := h.stage q
    exact ⟨g, ⟨(phase_setOutbox q).trans hg.phase, hg.notices, hg.inFlight⟩, hbelieved⟩

theorem setInbox_self (w : WorkerRank W) (o : SemiOutbox (WorkerRank W)) :
    s.setInbox w o (s.nextProcess w) = s.setOutbox w o := by
  simp [State.setInbox, State.setOutbox, State.setWorker]

theorem refresh (h : Agreement s v) (w : WorkerRank W) (receive : Bool) :
    Agreement (refresh w receive s) v := by
  have hnothing : Agreement (s.setOutbox w ((s.worker w).outbox.pollSection none)) v := by
    rw [← setInbox_self]
    exact h.setInbox (h.lists w).refreshed
  unfold Assignment.refresh
  cases receive with
  | false => exact hnothing
  | true =>
    cases hm : s.nextProcess w with
    | nil => exact hnothing
    | cons m rest =>
      have hw := h.lists w
      rw [hm] at hw
      exact h.setInbox (hw.received (fun r hr => h.child_ne_center hr) (v.family.nodup w)).1

theorem receiveNextProcess (h : Agreement s v) {w : WorkerRank W}
    (ht : receiveNextProcess w s = .moved t) : Agreement t v := by
  unfold Assignment.receiveNextProcess at ht
  split at ht
  · rename_i m rest hm
    split at ht
    · cases ht
      have hw := h.lists w
      rw [hm] at hw
      exact h.setInbox (hw.received (fun r hr => h.child_ne_center hr) (v.family.nodup w)).2
    · cases ht
  · cases ht

theorem feedHead (h : Agreement s v) {w x : WorkerRank W} {xs : List (WorkerRank W)}
    (hphase : (s.worker w).phase = .executing) (hx : s.pending w = x :: xs)
    {o : SemiOutbox (WorkerRank W)} {k : ℕ} (ho : o.nextProcesses = packed xs k)
    (hk : xs.length + k = W.size) (hcached : o.nextProcess = xs.head?) (bundle : TaskBundle) :
    Agreement { s.setOutbox w o with
      tasks := ⟨w, x, bundle⟩ ::ₘ s.tasks
      fed := Function.update s.fed w (s.fed w ++ [x]) } v := by
  have hmem : x ∈ s.pending w := by simp [hx]
  obtain ⟨hquiet, hfree⟩ := h.quiet_of_pending hmem
  have hxw : x ≠ w := by
    rintro rfl
    rw [hquiet.phase] at hphase
    cases hphase
  refine ⟨h.consistent, h.center, fun y => ?_, fun q => ?_⟩
  · by_cases hy : y = w
    · subst hy
      have hy := h.lists y
      rw [show s.pending y = pendingRanks (s.worker y).outbox.nextProcesses from rfl] at hx
      have hchannel : s.nextProcess y = [] := by
        obtain hnone | ⟨hpending, _⟩ := hy.channel
        · exact hnone
        · rw [hx] at hpending
          cases hpending
      have hassigned := hy.assigned
      rw [hx, hchannel] at hassigned
      have hnew : Agrees (v.family.children y) (s.fed y ++ [x]) [] o :=
        .ofPacked ho hk (by simpa using hassigned) (Or.inl rfl) (Or.inr hcached)
      simpa [State.setOutbox, State.setWorker, hchannel] using hnew
    · simpa [State.setOutbox, State.setWorker, hy] using h.lists y
  · by_cases hq : q = x
    · subst hq
      refine ⟨.fed, ⟨(phase_setOutbox q).trans hquiet.phase, hquiet.notices, ?_⟩,
        Or.inr ⟨h.state_of_mem (mem_assigned_of_pending hmem), w, by simp⟩⟩
      rw [tasksTo_cons, if_pos rfl]
      exact congrArg (· + 1) hquiet.inFlight
    · obtain ⟨g, hg, hbelieved⟩ := h.stage q
      have hwaited : State.Waited { s.setOutbox w o with
          tasks := ⟨w, x, bundle⟩ ::ₘ s.tasks
          fed := Function.update s.fed w (s.fed w ++ [x]) } q ↔ s.Waited q := by
        refine exists_congr fun p => ?_
        by_cases hp : p = w
        · subst hp
          simp [hq]
        · simp [hp]
      refine ⟨g, ⟨(phase_setOutbox q).trans hg.phase, hg.notices, ?_⟩, by rwa [hwaited]⟩
      rw [tasksTo_cons, if_neg fun he => hq (Subtype.ext he).symm]
      exact hg.inFlight

theorem refresh_of_empty {w : WorkerRank W} (receive : Bool) (hs : s.nextProcess w = []) :
    Assignment.refresh w receive s =
      s.setOutbox w ((s.worker w).outbox.pollSection none) := by
  unfold Assignment.refresh
  rw [hs]
  cases receive <;> rfl

theorem feed (h : Agreement s v) {w : WorkerRank W} {packet : TaskPacket} {functionId : ℤ}
    {receive : Bool} (ht : feed w packet functionId receive s = .moved t) : Agreement t v := by
  simp only [Assignment.feed] at ht
  split at ht
  · rename_i hguard
    obtain ⟨hphase, hopen⟩ := hguard
    split at ht
    · cases ht
    · rename_i o hpush
      split at ht
      · cases ht
      · cases ht
      · rename_i destination bundle o' hsend
        cases ht
        obtain ⟨cells, hshift, _, rfl⟩ := SemiOutbox.forcePush_eq_ok hpush
        obtain ⟨_, hdest, _, rfl⟩ := SemiOutbox.sendSection_eq_ok hsend
        obtain ⟨k, hvector, hk⟩ := (h.lists w).vector
        -- The channel opens on a cached rank, which is the head of the list.
        have hcached : (s.worker w).outbox.nextProcess = (s.pending w).head? := by
          refine (h.lists w).cached.resolve_left fun hnone => ?_
          simp [SemiOutbox.tryOpenTransmissionChannel, hnone] at hopen
        simp only at hdest
        rw [hcached] at hdest
        obtain ⟨xs, hx⟩ := List.head?_eq_some_iff.mp hdest
        rw [show pendingRanks (s.worker w).outbox.nextProcesses = destination :: xs from hx]
          at hvector hk
        rw [hvector, shiftLeft_packed (by rw [hk]; exact W.two_le)] at hshift
        obtain rfl := Option.some.inj hshift
        have hchannel : s.nextProcess w = [] := by
          obtain hnone | ⟨hpending, _⟩ := (h.lists w).channel
          · exact hnone
          · rw [show pendingRanks (s.worker w).outbox.nextProcesses = destination :: xs from hx]
              at hpending
            cases hpending
        rw [refresh_of_empty receive (by simpa [State.setOutbox, State.setWorker] using hchannel)]
        have hlength : xs.length + ((destination :: xs).length + k - xs.length) = W.size := by
          simp only [List.length_cons] at hk ⊢
          omega
        have hfed := h.feedHead hphase hx (o := SemiOutbox.pollSection none
          ⟨⟨false, []⟩, none, (s.worker w).outbox.nextProcess,
            packed xs ((destination :: xs).length + k - xs.length)⟩) rfl hlength
          (head?_join_packed _ _) bundle
        simpa [State.setOutbox, State.setWorker] using hfed
  · cases ht

theorem notices_notify {w : WorkerRank W} {tag : StateTag} {x : Worker (SemiOutbox (WorkerRank W))}
    (q : WorkerRank W) : ((s.notify w tag).setWorker w x).notices q =
      if q = w then s.notices w ++ [tag] else s.notices q := by
  by_cases hq : q = w
  · subst hq
    simp [State.notify, State.setWorker]
  · simp [State.notify, State.setWorker, hq]

/-- A worker that reports passes to another stage; its outbox stays, and so do all others. -/
theorem passStage (h : Agreement s v) {w : WorkerRank W} {tag : StateTag} {phase : WorkerPhase}
    {tasks : Multiset (TaskMessage W)}
    (hothers : ∀ q : WorkerRank W, q ≠ w → tasksTo q tasks = tasksTo q s.tasks)
    (hw : ∃ g : Stage, (phase = g.phase ∧ s.notices w ++ [tag] = g.notices ∧
      tasksTo w tasks = g.inFlight) ∧ g.Believed (v.state w) (s.Waited w)) :
    Agreement ((({ s with tasks := tasks } : State W).notify w tag).setWorker w
      { s.worker w with phase }) v := by
  refine ⟨h.consistent, h.center, fun x => ?_, fun q => ?_⟩
  · by_cases hx : x = w
    · subst hx
      simpa [State.setWorker, State.notify] using h.lists x
    · simpa [State.setWorker, State.notify, hx] using h.lists x
  · by_cases hq : q = w
    · subst hq
      obtain ⟨g, ⟨hphase, hnotices, htasks⟩, hbelieved⟩ := hw
      refine ⟨g, ⟨by simp [State.setWorker, hphase], ?_, htasks⟩, hbelieved⟩
      rw [notices_notify, if_pos rfl]
      exact hnotices
    · obtain ⟨g, hg, hbelieved⟩ := h.stage q
      refine ⟨g, ⟨by simpa [State.setWorker, State.notify, hq] using hg.phase, ?_,
        (hothers q hq).trans hg.inFlight⟩, hbelieved⟩
      rw [notices_notify, if_neg hq]
      exact hg.notices

theorem processMessage (h : Agreement s v) {w : WorkerRank W} {source : Rank W}
    {bundle : TaskBundle} (ht : processMessage w source bundle s = .moved t) : Agreement t v := by
  simp only [Assignment.processMessage] at ht
  split at ht
  · rename_i hguard
    obtain ⟨hphase, hmem⟩ := hguard
    cases ht
    have hcons := Multiset.cons_erase hmem
    have hcount : ∀ q : WorkerRank W, tasksTo q s.tasks =
        tasksTo q (s.tasks.erase ⟨source, w, bundle⟩) + if w.val = q.val then 1 else 0 := by
      intro q
      rw [← tasksTo_cons q ⟨source, w, bundle⟩, hcons]
    refine h.passStage (fun q hq => ?_) ?_
    · rw [hcount q, if_neg fun he => hq (Subtype.ext he).symm, Nat.add_zero]
    · obtain ⟨g, hg, hbelieved⟩ := h.stage w
      have hone := hcount w
      rw [if_pos rfl, hg.inFlight] at hone
      -- Only a fed worker has a task in flight to it.
      cases g with
      | fed =>
        refine ⟨.started, ⟨rfl, by rw [hg.notices]; rfl, ?_⟩, hbelieved⟩
        simp only [Stage.inFlight] at hone ⊢
        omega
      | quiet | started | stopped | running | ended => simp [Stage.inFlight] at hone
  · cases ht

theorem leaveFunnel (h : Agreement s v) {w : WorkerRank W}
    (ht : leaveFunnel w s = .moved t) : Agreement t v := by
  simp only [Assignment.leaveFunnel] at ht
  split at ht
  · rename_i hphase
    cases ht
    refine h.passStage (fun _ _ => rfl) ?_
    obtain ⟨g, hg, hbelieved⟩ := h.stage w
    rw [hg.phase] at hphase
    have htasks := hg.inFlight
    cases g with
    | started => exact ⟨.stopped, ⟨rfl, by rw [hg.notices]; rfl, htasks⟩, hbelieved⟩
    | running => exact ⟨.ended, ⟨rfl, by rw [hg.notices]; rfl, htasks⟩, hbelieved⟩
    | quiet | fed | stopped | ended => cases hphase
  · cases ht

/-! ## Steps of the center -/

/-- The state the center records for a report. -/
def reported : StateTag → ProcessState
  | .RUNNING_STATE => .RUNNING_STATE
  | .AVAILABLE_STATE => .AVAILABLE_STATE

theorem reported_ne_assigned (tag : StateTag) : reported tag ≠ .ASSIGNED_STATE := by
  cases tag <;> simp [reported]

/-- The stage after the oldest notice is processed, and what was believed before. -/
theorem stage_settle (h : Agreement s v) {w : WorkerRank W} {tag : StateTag}
    {rest : List StateTag} (hnotices : s.notices w = tag :: rest) :
    ∃ g : Stage, ((s.worker w).phase = g.phase ∧ rest = g.notices ∧
        tasksTo w s.tasks = g.inFlight) ∧
      match tag with
      | .RUNNING_STATE => (g = .running ∨ g = .ended) ∧
          (v.state w = .RUNNING_STATE ∨ s.Waited w)
      | .AVAILABLE_STATE => g = .quiet ∧ v.state w = .RUNNING_STATE := by
  obtain ⟨g, hg, hbelieved⟩ := h.stage w
  have hnote := hg.notices
  rw [hnotices] at hnote
  have hphase := hg.phase
  have htasks := hg.inFlight
  cases g with
  | started =>
    obtain ⟨rfl, rfl⟩ : tag = .RUNNING_STATE ∧ rest = [] := by simpa [Stage.notices] using hnote
    exact ⟨.running, ⟨hphase, rfl, htasks⟩, Or.inl rfl, hbelieved.imp_right And.right⟩
  | stopped =>
    obtain ⟨rfl, rfl⟩ : tag = .RUNNING_STATE ∧ rest = [.AVAILABLE_STATE] := by
      simpa [Stage.notices] using hnote
    exact ⟨.ended, ⟨hphase, rfl, htasks⟩, Or.inr rfl, hbelieved.imp_right And.right⟩
  | ended =>
    obtain ⟨rfl, rfl⟩ : tag = .AVAILABLE_STATE ∧ rest = [] := by simpa [Stage.notices] using hnote
    exact ⟨.quiet, ⟨hphase, rfl, htasks⟩, rfl, hbelieved⟩
  | quiet | fed | running => simp [Stage.notices] at hnote

/-- A rank that no one waits for and that reports is in no list. -/
theorem orphan_of_running (h : Agreement s v) {w : WorkerRank W}
    (hstate : v.state w = .RUNNING_STATE) : v.family.parent w = none := by
  by_contra hne
  have hassigned := (h.consistent.assigned w).mpr hne
  rw [hstate] at hassigned
  cases hassigned

/-- Releasing a reporting rank takes it out of the ranks its parent has fed. -/
theorem lists_settle (h : Agreement s v) {w : WorkerRank W} {tag : StateTag}
    {rest : List StateTag} (hnotices : s.notices w = tag :: rest) (p : WorkerRank W) :
    Agrees ((v.family.detach w).children p) ((s.settle w tag rest).fed p) (s.nextProcess p)
      (s.worker p).outbox := by
  have hp := h.lists p
  obtain ⟨g, _, hg⟩ := h.stage_settle hnotices
  cases tag with
  | AVAILABLE_STATE =>
    rw [v.family.detach_of_orphan (h.orphan_of_running hg.2)]
    exact hp
  | RUNNING_STATE =>
    refine ⟨?_, hp.channel, hp.vector, hp.cached⟩
    simp only [Forest.Ordered.detach, State.settle, if_true]
    by_cases hfed : w ∈ s.fed p
    · rw [hp.assigned, List.append_assoc, List.erase_append_left _ (List.mem_map_of_mem hfed),
        List.map_erase Subtype.val_injective, List.append_assoc]
    · have hnot : w.val ∉ v.family.children p := by
        intro hmem
        have hparent := (v.family.mem_children p w).mp hmem
        obtain hrun | ⟨p', hp'⟩ := hg.2
        · rw [h.orphan_of_running hrun] at hparent
          cases hparent
        · have hpp := h.disjoint (mem_assigned_of_fed hp') (h.assigned p ▸ hmem)
          exact hfed (hpp ▸ hp')
      rw [List.erase_of_not_mem hnot, List.erase_of_not_mem hfed]
      exact hp.assigned

theorem settle (h : Agreement s v) {w : WorkerRank W} {tag : StateTag} {rest : List StateTag}
    (hnotices : s.notices w = tag :: rest) :
    Agreement (s.settle w tag rest) (v.report w (reported tag)) := by
  refine ⟨h.consistent.report w (reported_ne_assigned tag), ?_, h.lists_settle hnotices,
    fun q => ?_⟩
  · have hne : W.center ≠ w.val := Ne.symm w.property
    simpa [Coordinator.View.report, Forest.Ordered.detach, Function.update_of_ne hne]
      using h.center
  · by_cases hq : q = w
    · subst hq
      obtain ⟨g, ⟨hphase, hrest, htasks⟩, hg⟩ := h.stage_settle hnotices
      refine ⟨g, ⟨hphase, by simp [State.settle, hrest], htasks⟩, ?_⟩
      cases tag with
      | RUNNING_STATE =>
        obtain ⟨rfl | rfl, _⟩ := hg <;> simp [Stage.Believed, Coordinator.View.report, reported]
      | AVAILABLE_STATE =>
        obtain ⟨rfl, hrun⟩ := hg
        refine ⟨by simp [Coordinator.View.report, reported], ?_⟩
        rintro ⟨p, hp⟩
        have hstate := h.state_of_mem (mem_assigned_of_fed (s := s) (w := p) (by
          simpa [State.settle] using hp))
        rw [hrun] at hstate
        cases hstate
    · obtain ⟨g, hg, hbelieved⟩ := h.stage q
      have hwaited : (s.settle w tag rest).Waited q ↔ s.Waited q := by
        refine exists_congr fun p => ?_
        cases tag <;> simp [State.settle, List.mem_erase_of_ne hq]
      have hstate : (v.report w (reported tag)).state q = v.state q :=
        Function.update_of_ne (fun he => hq (Subtype.ext he)) ..
      refine ⟨g, ⟨hg.phase, ?_, hg.inFlight⟩, by rwa [hstate, hwaited]⟩
      simpa [State.settle, hq] using hg.notices

theorem deliver (h : Agreement s v) {sent : List (Assignment W)} (ha : v.Assigns v' sent) :
    Agreement (s.deliver sent) v' := by
  have hcons := h.consistent.assigns ha
  cases ha with
  | nobody => simpa [State.deliver] using h
  | pair p r hp hr hnext horphan =>
    have hrc : W.center ≠ r.val := Ne.symm r.property
    refine ⟨hcons, ?_, fun x => ?_, fun q => ?_⟩
    · simpa [Forest.Ordered.attach, Function.update_of_ne hrc] using h.center
    · by_cases hx : x = p
      · subst hx
        have hlists := h.lists x
        obtain ⟨k, hvector, hk⟩ := hlists.vector
        have hassigned := hlists.assigned
        have hcached := hlists.cached
        rw [hnext] at hassigned
        obtain ⟨hleading, hflat⟩ := List.append_eq_nil_iff.mp hassigned.symm
        obtain ⟨hfed, hpending⟩ := List.append_eq_nil_iff.mp hleading
        have hfed := List.map_eq_nil_iff.mp hfed
        have hpending := List.map_eq_nil_iff.mp hpending
        have hchannel : s.nextProcess x = [] := by
          obtain hnone | ⟨_, m, hm, hone⟩ := hlists.channel
          · exact hnone
          · rw [hone] at hflat
            exact absurd (by simpa using hflat) hm
        rw [hpending] at hvector hk hcached
        have hnew : Agrees [r.val] [] [[r.val]] (s.worker x).outbox :=
          .ofPacked hvector hk (by simp) (Or.inr ⟨rfl, [r.val], by simp, rfl⟩) hcached
        simpa [State.deliver, Forest.Ordered.attach, hnext, hfed, hchannel] using hnew
      · have hne : x.val ≠ p.val := fun he => hx (Subtype.ext he)
        simpa [State.deliver, Forest.Ordered.attach, Function.update_of_ne hne, hne.symm]
          using h.lists x
    · obtain ⟨g, hg, hbelieved⟩ := h.stage q
      refine ⟨g, ⟨hg.phase, hg.notices, hg.inFlight⟩, ?_⟩
      by_cases hq : q = r
      · subst hq
        rw [hr] at hbelieved
        cases g <;> simp [Stage.Believed] at hbelieved ⊢
        exact hbelieved
      · have hne : q.val ≠ r.val := fun he => hq (Subtype.ext he)
        rw [← Function.update_of_ne hne .ASSIGNED_STATE v.state] at hbelieved
        exact hbelieved

theorem filterMap_eq_toList {α β : Type} {l : List α} (hl : l.Nodup) {w : α} (hw : w ∈ l)
    {f : α → Option β} (hf : ∀ p, p ≠ w → f p = none) : l.filterMap f = (f w).toList := by
  obtain ⟨xs, ys, rfl⟩ := List.append_of_mem hw
  obtain ⟨_, hys, hdisjoint⟩ := List.nodup_append.mp hl
  have hnone : ∀ zs : List α, w ∉ zs → zs.filterMap f = [] := fun zs hzs =>
    List.filterMap_eq_nil_iff.mpr fun p hp => hf p fun he => hzs (he ▸ hp)
  rw [List.filterMap_append, hnone xs fun hx => hdisjoint w hx w (by simp) rfl,
    List.filterMap_cons, hnone ys (List.nodup_cons.mp hys).1]
  cases f w <;> rfl

/-- A freshly started coordinator has every later rank in a message to its parent. -/
theorem start {c : Coordinator W} (hv : v.Consistent) (hfirst : v.state W.first = .RUNNING_STATE)
    (hcenter : v.family.parent W.center = none)
    (hrest : ∀ w : WorkerRank W, w ≠ W.firstWorker → v.state w = .ASSIGNED_STATE)
    (seed : TaskBundle) :
    Agreement (start c (Coordinator.Refines.initialMessages v.family W.workers) seed) v := by
  have hchannel : ∀ w : WorkerRank W,
      (Assignment.start c (Coordinator.Refines.initialMessages v.family W.workers)
        seed).nextProcess w =
          if v.family.children w = [] then [] else [v.family.children w] := by
    intro w
    simp only [Assignment.start, State.deliver, List.nil_append,
      Coordinator.Refines.initialMessages, List.filterMap_filterMap]
    rw [filterMap_eq_toList W.nodup_workers (World.mem_workers w)]
    · by_cases hnone : v.family.children w = [] <;> simp [hnone]
    · intro p hp
      have hne : p.val ≠ w.val := fun he => hp (Subtype.ext he)
      by_cases hnone : v.family.children p = [] <;> simp [hnone, hne]
  refine ⟨hv, hcenter, fun w => ?_, fun q => ?_⟩
  · rw [hchannel]
    have hvector : (SemiOutbox.initial W.size : SemiOutbox (WorkerRank W)).nextProcesses =
        packed [] W.size := by simp [SemiOutbox.initial, packed]
    refine .ofPacked hvector (by simp) ?_ ?_ (Or.inl rfl)
    · split
      · rename_i hnone
        simp [hnone, Assignment.start, State.deliver]
      · simp [Assignment.start, State.deliver]
    · split
      · exact Or.inl rfl
      · rename_i hsome
        exact Or.inr ⟨rfl, _, hsome, rfl⟩
  · have hnone : ¬ State.Waited (Assignment.start c
        (Coordinator.Refines.initialMessages v.family W.workers) seed) q := by
      simp [State.Waited, Assignment.start, State.deliver]
    have htasks : tasksTo q ({⟨W.center, W.first, seed⟩} : Multiset (TaskMessage W)) =
        if W.first = q.val then 1 else 0 := by
      rw [← Multiset.cons_zero, tasksTo_cons]
      simp [tasksTo]
    by_cases hq : q = W.firstWorker
    · subst hq
      refine ⟨.fed, ⟨rfl, rfl, ?_⟩, Or.inl hfirst⟩
      exact htasks.trans (if_pos rfl)
    · refine ⟨.quiet, ⟨rfl, rfl, ?_⟩, by simp [hrest q hq], hnone⟩
      exact htasks.trans (if_neg fun he => hq (Subtype.ext he).symm)

end Agreement

/-- The coordinator's tree is some family, and the processes agree with it. -/
def Invariant (s : State W) : Prop := ∃ v, s.coordinator.Refines v ∧ Agreement s v

theorem refresh_coordinator (w : WorkerRank W) (receive : Bool) (s : State W) :
    (refresh w receive s).coordinator = s.coordinator := by
  unfold refresh
  split <;> rfl

theorem Invariant.centerState (h : Invariant s) {w : WorkerRank W} {offset : Fin (W.size + 1)}
    (ht : centerState w offset s = .moved t) : Invariant t := by
  obtain ⟨v, hrefines, hagree⟩ := h
  simp only [Assignment.centerState] at ht
  split at ht
  · cases ht
  · rename_i tag rest hnotices
    have hsettled := hagree.settle hnotices
    have hhandle : ∃ c v' sent, Coordinator.handle (report w offset tag) s.coordinator =
        .ok (c, sent) ∧ c.Refines v' ∧
          (v.report w (Agreement.reported tag)).Assigns v' sent := by
      cases tag with
      | RUNNING_STATE =>
        obtain ⟨c, v', sent, hok, hc, hhires⟩ := hrefines.processRunning hagree.consistent w
        exact ⟨c, v', sent, hok, hc, hhires.assigns (Function.update_self ..)⟩
      | AVAILABLE_STATE =>
        obtain ⟨c, v', sent, hok, hc, hjoins⟩ :=
          hrefines.processAvailable hagree.consistent w offset
        exact ⟨c, v', sent, hok, hc, hjoins.assigns (Function.update_self ..)⟩
    obtain ⟨c, v', sent, hok, hc, hassigns⟩ := hhandle
    rw [hok] at ht
    cases ht
    have hdelivered := hsettled.deliver hassigns
    exact ⟨v', hc, hdelivered.consistent, hdelivered.center, hdelivered.lists,
      fun q => (hdelivered.stage q).imp fun g hg =>
        ⟨⟨hg.1.phase, hg.1.notices, hg.1.inFlight⟩, hg.2⟩⟩

theorem Invariant.step (h : Invariant s) (e : Event W) (ht : step e s = .moved t) :
    Invariant t := by
  cases e with
  | feed w packet functionId receive =>
    obtain ⟨v, hrefines, hagree⟩ := h
    refine ⟨v, ?_, hagree.feed ht⟩
    simp only [Assignment.step, Assignment.feed] at ht
    split at ht
    · split at ht
      · cases ht
      · split at ht
        · cases ht
        · cases ht
        · cases ht
          rw [refresh_coordinator]
          exact hrefines
    · cases ht
  | poll w receive =>
    obtain ⟨v, hrefines, hagree⟩ := h
    simp only [Assignment.step, Assignment.poll] at ht
    split at ht
    · cases ht
      exact ⟨v, (refresh_coordinator w receive s).symm ▸ hrefines, hagree.refresh w receive⟩
    · cases ht
  | receiveNextProcess w =>
    obtain ⟨v, hrefines, hagree⟩ := h
    refine ⟨v, ?_, hagree.receiveNextProcess ht⟩
    simp only [Assignment.step, Assignment.receiveNextProcess] at ht
    split at ht
    · split at ht
      · cases ht
        exact hrefines
      · cases ht
    · cases ht
  | processMessage w source bundle =>
    obtain ⟨v, hrefines, hagree⟩ := h
    refine ⟨v, ?_, hagree.processMessage ht⟩
    simp only [Assignment.step, Assignment.processMessage] at ht
    split at ht
    · cases ht
      exact hrefines
    · cases ht
  | leaveFunnel w =>
    obtain ⟨v, hrefines, hagree⟩ := h
    refine ⟨v, ?_, hagree.leaveFunnel ht⟩
    simp only [Assignment.step, Assignment.leaveFunnel] at ht
    split at ht
    · cases ht
      exact hrefines
    · cases ht
  | centerState w offset => exact h.centerState ht

theorem invariant_of_reachable (h : (machine W).Reachable s) : Invariant s := by
  refine h.invariant (I := Invariant) ?_ (fun _ e _ _ hs _ ht => hs.step e ht)
  rintro s ⟨c, sent, seed, hstart, rfl⟩
  obtain ⟨c', v, hok, hrefines, hv, hfirst, hcenter, hrest⟩ := Coordinator.start_eq W
  rw [hstart] at hok
  cases hok
  exact ⟨v, hrefines, .start hv hfirst hcenter hrest seed⟩

/-- The center's lists are those of the workers, messages meet empty lists, lists are disjoint,
and a task in flight is the only one and meets a worker that does not execute. -/
theorem agreement (h : (machine W).Reachable s) :
    (∀ w : WorkerRank W, s.coordinator.processTree.childrenOf w = some (s.assigned w) ∧
      (s.pending w = [] ∨ s.nextProcess w = []) ∧ (s.nextProcess w).length ≤ 1) ∧
    (∀ w, s.nextProcess w ≠ [] → s.pending w = []) ∧
    (∀ p q r, r ∈ s.pending p → r ∈ s.pending q → p = q) ∧
    ∀ q : WorkerRank W, tasksTo q s.tasks ≤ 1 ∧
      (tasksTo q s.tasks ≠ 0 → (s.worker q).phase ≠ .executing) := by
  obtain ⟨v, hrefines, hagree⟩ := invariant_of_reachable h
  have hchannel : ∀ w, s.nextProcess w ≠ [] → s.pending w = [] := fun w hne =>
    ((hagree.lists w).channel.resolve_left hne).1
  refine ⟨fun w => ⟨?_, ?_, ?_⟩, hchannel, fun p q r hp hq => ?_, fun q => ?_⟩
  · rw [hrefines.tree.childrenOf_eq, hagree.assigned]
  · by_cases hne : s.nextProcess w = []
    · exact Or.inr hne
    · exact Or.inl (hchannel w hne)
  · obtain hnone | ⟨_, m, _, hone⟩ := (hagree.lists w).channel
    · simp [hnone]
    · simp [hone]
  · exact hagree.disjoint (Agreement.mem_assigned_of_pending hp)
      (Agreement.mem_assigned_of_pending hq)
  · obtain ⟨g, hg, _⟩ := hagree.stage q
    rw [hg.inFlight, hg.phase]
    cases g <;> simp [Stage.inFlight, Stage.phase]

/-- Rank 1 feeds ranks 2 and 3, its initial list; rank 2 becomes available in between and goes to
rank 3, which has received its list. -/
def fourSteps (offset : Fin (World.four.size + 1)) : List (Event .four) :=
  let first := World.four.firstWorker
  [.processMessage first World.four.center ⟨[7], 3⟩, .centerState first offset, .poll first true,
    .feed first [8] 3 false, .processMessage secondOfFour first ⟨[8], 3⟩,
    .centerState secondOfFour offset, .leaveFunnel secondOfFour, .centerState secondOfFour offset,
    .feed first [9] 3 false, .processMessage thirdOfFour first ⟨[9], 3⟩,
    .centerState thirdOfFour offset, .poll thirdOfFour true]

theorem agreement_four : ∃ c sent t, Coordinator.start .four = .ok (c, sent) ∧
    (machine .four).run (fourSteps 0) (start c sent ⟨[7], 3⟩) = some t ∧
    t.pending thirdOfFour = [secondOfFour] ∧ t.nextProcess thirdOfFour = [] ∧
    t.coordinator.processTree.childrenOf thirdOfFour.val = some (t.assigned thirdOfFour) ∧
    (∀ p, secondOfFour ∈ t.pending p → p = thirdOfFour) ∧
    ∀ q : WorkerRank .four, tasksTo q t.tasks ≤ 1 := by
  have hrun : ∃ c sent t, Coordinator.start .four = .ok (c, sent) ∧
      (machine .four).run (fourSteps 0) (start c sent ⟨[7], 3⟩) = some t ∧
      t.pending thirdOfFour = [secondOfFour] := ⟨_, _, _, rfl, rfl, rfl⟩
  obtain ⟨c, sent, t, hstart, ht, hpending⟩ := hrun
  have hinitial : (machine .four).Reachable (start c sent ⟨[7], 3⟩) := .start ⟨_, _, _, hstart, rfl⟩
  obtain ⟨hlists, hchannel, hdisjoint, htasks⟩ := agreement (hinitial.run ht)
  refine ⟨c, sent, t, hstart, ht, hpending, ?_, (hlists thirdOfFour).1, ?_, fun q => (htasks q).1⟩
  · by_contra hne
    have hnil := hchannel thirdOfFour hne
    rw [hpending] at hnil
    cases hnil
  · intro p hp
    apply hdisjoint p thirdOfFour secondOfFour hp
    rw [hpending]
    exact List.mem_singleton_self secondOfFour

end Gempba.Assignment
