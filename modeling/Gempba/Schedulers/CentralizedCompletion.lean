import Gempba.Schedulers.BookkeepingInvariant
import Gempba.Schedulers.Closing
import Gempba.Schedulers.Progress
import Gempba.Schedulers.RemainingWork

/-!
# The centralized scheduler completes

A queued task never waits while a worker is available, and a worker that is
not available has a task, or a report to the center on its way. So a step is
left until the center has heard all workers, and only pushes bring more work.
-/

namespace Gempba.Centralized

set_option autoImplicit false

open Transition

variable {W : World} {s t : State W} {b : Books W}

def State.work (s : State W) : ℕ := s.toSchedulerState.work + QUEUED_TASK_WORK * s.queue.card

/-! ## Work -/

theorem sendToAvailable_work (sent : List (WorkerRank W × Ticketed)) (n : TaskNetwork W) :
    (sendToAvailable sent n).work = n.work + 5 * sent.length := by
  induction sent generalizing n with
  | nil => rfl
  | cons x sent ih =>
    have htask : (⟨W.center, x.1, x.2.bundle⟩ : TaskMessage W).work = 5 := if_neg x.1.property
    rw [sendToAvailable, List.foldl_cons, ← sendToAvailable, ih, TaskNetwork.work_sendTask, htask,
      List.length_cons]
    omega

theorem clearBuffer_work {order : List Ticketed} (h : clearBuffer order s = .moved t) :
    t.work ≤ s.work := by
  obtain ⟨_, horder, rfl⟩ := clearBuffer_moved h
  have hcontents := dispatchToAvailable_contents popFront (fun q => (q : Multiset Ticketed))
    popFront_contents W.workers order s.processState
  have hcard := congrArg Multiset.card hcontents
  have hnetwork := sendToAvailable_work
    (dispatchToAvailable popFront W.workers order s.processState).sent s.network
  simp only [Multiset.card_add, Multiset.coe_card, List.length_map] at hcard
  simp only [State.work, SchedulerState.work, hnetwork, horder, Multiset.coe_card,
    QUEUED_TASK_WORK]
  omega

/-- A message of the center, unless it only concerns the score. -/
def CenterMessage.internal : CenterMessage W → Bool
  | .scoreProposal => false
  | _ => true

theorem handle_work {m : CenterMessage W} (h : handle m s = .moved t) :
    m.internal.toNat + t.work ≤ s.work ∧ t.centerPhase = .receiving := by
  cases m with
  | state w tag =>
    obtain ⟨u, hu, rfl⟩ := Outcome.map_eq_moved.mp h
    obtain ⟨v, hv, rfl⟩ := lift_moved hu
    have hwork := SchedulerState.work_consumeIntFlag hv
    obtain ⟨hphase, _, rfl⟩ := SchedulerState.consumeIntFlag_moved hv
    cases tag with
    | RUNNING_STATE =>
      refine ⟨?_, hphase⟩
      simp only [State.work, processRunning, CenterMessage.internal, Bool.toNat_true]
      omega
    | AVAILABLE_STATE =>
      refine ⟨?_, hphase⟩
      simp only [State.work, processAvailable, CenterMessage.internal, Bool.toNat_true]
      omega
  | scoreProposal =>
    simp only [handle] at h
    split at h
    · rename_i hphase
      cases h
      refine ⟨?_, hphase⟩
      simp only [CenterMessage.internal, Bool.toNat_false]
      omega
    · cases h
  | task source bundle =>
    obtain ⟨hphase, hmem, rfl⟩ := processTaskForCenter_moved h
    refine ⟨?_, hphase⟩
    have hnetwork := TaskNetwork.work_receiveTask hmem
    have htask : (⟨source, W.center, bundle⟩ : TaskMessage W).work = 8 := if_pos rfl
    simp only [State.work, SchedulerState.work, Multiset.card_cons, CenterMessage.internal,
      Bool.toNat_true, QUEUED_TASK_WORK]
    omega
  | acknowledgement source =>
    obtain ⟨u, hu, rfl⟩ := lift_moved h
    obtain ⟨hwork, hphase⟩ := SchedulerState.work_centerAck hu
    refine ⟨?_, hphase⟩
    simp only [State.work, CenterMessage.internal, Bool.toNat_true]
    omega

theorem afterMessage_work {order : List Ticketed} (hphase : s.centerPhase = .receiving)
    (h : afterMessage order s = .moved t) : t.work ≤ s.work := by
  simp only [afterMessage] at h
  split at h
  · cases h
    have hwork := SchedulerState.work_notifyTermination hphase
    simp only [State.work]
    omega
  · exact clearBuffer_work h

/-- The steps that are not supplied from outside. -/
def internal : Event W → Bool
  | .consumeCenterFullness _ _ | .push _ _ _ | .clearBuffer _ => false
  | .center m _ => m.internal
  | _ => true

def gain : Event W → ℕ
  | .push _ _ _ => PUSHED_TASK_WORK
  | _ => 0

theorem lift_work {f : SchedulerState W CenterOutbox → SchedulerState.Step W CenterOutbox}
    (hf : ∀ u, f s.toSchedulerState = .moved u → u.work < s.toSchedulerState.work)
    (h : s.lift f = .moved t) : Bool.toNat true + t.work ≤ s.work + 0 := by
  obtain ⟨u, hu, rfl⟩ := lift_moved h
  have hwork := hf u hu
  simp only [State.work, Bool.toNat_true]
  omega

theorem step_work {e : Event W} (ht : step e s = .moved t) :
    (internal e).toNat + t.work ≤ s.work + gain e := by
  cases e with
  | processMessage w source bundle =>
    exact lift_work (fun _ => SchedulerState.work_processMessage) ht
  | consumeCenterFullness w isFull =>
    obtain ⟨u, hu, rfl⟩ := lift_moved ht
    have hwork := SchedulerState.work_updateOutbox
      (f := fun o : CenterOutbox => { o with isCenterFull := isFull }) (fun _ => rfl) hu
    simp only [State.work, internal, Bool.toNat_false, gain]
    omega
  | push w packet functionId =>
    obtain ⟨u, hu, rfl⟩ := lift_moved ht
    have hwork : u.work = s.toSchedulerState.work + PUSHED_TASK_WORK := by
      refine SchedulerState.work_push ?_ hu
      intro o o' hpush
      obtain ⟨hqueue, rfl⟩ := CenterOutbox.forcePush_eq_ok hpush
      exact ⟨hqueue, rfl⟩
    simp only [State.work, internal, Bool.toNat_false, gain]
    omega
  | send w =>
    refine lift_work (fun _ => SchedulerState.work_send ?_) ht
    intro o destination bundle o' hsend
    refine ⟨?_, sendSection_initial o destination bundle o' hsend⟩
    obtain ⟨sent, hsent, hmap⟩ := Option.map_eq_some_iff.mp hsend
    cases sent with
    | error e => cases hmap
    | ok sent =>
      obtain ⟨b, rest⟩ := sent
      obtain ⟨hqueue, _⟩ := CenterOutbox.sendSection_eq_ok hsent
      exact congrArg List.length hqueue
  | leaveFunnel w => exact lift_work (fun _ => SchedulerState.work_leaveFunnel) ht
  | receiveAck w source => exact lift_work (fun _ => SchedulerState.work_receiveAck) ht
  | processTermination w =>
    exact lift_work (fun _ => SchedulerState.work_processTermination) ht
  | sendFinalSolution w report =>
    exact lift_work (fun _ => SchedulerState.work_sendFinalSolution) ht
  | center m order =>
    obtain ⟨u, hu, hafter⟩ := Outcome.bind_eq_moved.mp ht
    obtain ⟨hwork, hphase⟩ := handle_work hu
    have hleft := afterMessage_work hphase hafter
    simp only [internal, gain]
    omega
  | clearBuffer order =>
    have hwork := clearBuffer_work ht
    simp only [internal, Bool.toNat_false, gain]
    omega
  | centerBarrier => exact lift_work (fun _ => SchedulerState.work_centerBarrier) ht
  | receiveSolutionFrom w tag =>
    exact lift_work (fun _ => SchedulerState.work_receiveSolutionFrom) ht

/-! ## No task waits for an available worker -/

/-- The dispatch ends with an empty queue or without an available rank. -/
theorem dispatchToAvailable_served {τ ρ : Type} [DecidableEq ρ] (ranks : List ρ) (queue : List τ)
    (states : ρ → ProcessState) :
    (dispatchToAvailable popFront ranks queue states).queue = [] ∨
      ∀ r ∈ ranks, (dispatchToAvailable popFront ranks queue states).states r ≠
        .AVAILABLE_STATE := by
  -- a rank that was not available, or has been served, is not available at the end
  have hstays : ∀ (ranks : List ρ) (queue : List τ) (states : ρ → ProcessState) (r : ρ),
      states r ≠ .AVAILABLE_STATE →
        (dispatchToAvailable popFront ranks queue states).states r ≠ .AVAILABLE_STATE := by
    intro ranks queue states r hr
    obtain ⟨_, _, _, hstates⟩ := dispatchToAvailable_states popFront ranks queue states
    rw [hstates]
    simp only
    split
    · exact ProcessState.noConfusion
    · exact hr
  induction ranks generalizing queue states with
  | nil => exact Or.inr (List.forall_mem_nil _)
  | cons rank ranks ih =>
    cases queue with
    | nil => exact Or.inl rfl
    | cons task rest =>
      simp only [dispatchToAvailable, popFront]
      split
      · rename_i hrank
        obtain hempty | hserved := ih (task :: rest) states
        · exact Or.inl hempty
        · exact Or.inr (List.forall_mem_cons.mpr ⟨hstays _ _ _ _ hrank, hserved⟩)
      · obtain hempty | hserved := ih rest (Function.update states rank .ASSIGNED_STATE)
        · exact Or.inl hempty
        · refine Or.inr (List.forall_mem_cons.mpr ⟨hstays _ _ _ _ ?_, hserved⟩)
          rw [Function.update_self]
          exact ProcessState.noConfusion

/-- While the center is in its loop, a queued task waits only if no worker is available. -/
def Served (s : State W) : Prop :=
  s.centerPhase = .receiving → s.queue = 0 ∨ ∀ w, s.processState w ≠ .AVAILABLE_STATE

theorem clearBuffer_served {order : List Ticketed} (h : clearBuffer order s = .moved t) :
    Served t := by
  obtain ⟨_, _, rfl⟩ := clearBuffer_moved h
  intro _
  obtain hempty | hserved := dispatchToAvailable_served W.workers order s.processState
  · left
    exact congrArg (fun q : List Ticketed => (q : Multiset Ticketed)) hempty
  · right
    intro w
    exact hserved w (World.mem_workers w)

theorem afterMessage_served {order : List Ticketed} (h : afterMessage order s = .moved t) :
    Served t := by
  simp only [afterMessage] at h
  split at h
  · cases h
    intro hphase
    cases hphase
  · exact clearBuffer_served h

theorem lift_served (hs : Served s)
    {f : SchedulerState W CenterOutbox → SchedulerState.Step W CenterOutbox}
    (hf : ∀ u, f s.toSchedulerState = .moved u → u.centerPhase = .receiving →
      s.centerPhase = .receiving)
    (h : s.lift f = .moved t) : Served t := by
  obtain ⟨u, hu, rfl⟩ := lift_moved h
  intro hphase
  exact hs (hf u hu hphase)

/-! ## Every run goes on to the end -/

structure Underway (s : State W) (b : Books W) : Prop where
  invariant : Invariant s
  booked : Booked s b
  closing : s.toSchedulerState.Closing
  served : Served s

theorem closing_step (h : s.toSchedulerState.Closing) (hsound : s.toSchedulerState.Sound)
    {e : Event W} (ht : step e s = .moved t) : t.toSchedulerState.Closing := by
  cases e with
  | processMessage w source bundle =>
    obtain ⟨u, hu, rfl⟩ := lift_moved ht
    exact h.processMessage hu
  | consumeCenterFullness w isFull =>
    obtain ⟨u, hu, rfl⟩ := lift_moved ht
    exact h.updateOutbox hu
  | push w packet functionId =>
    obtain ⟨u, hu, rfl⟩ := lift_moved ht
    exact h.push hu
  | send w =>
    obtain ⟨u, hu, rfl⟩ := lift_moved ht
    exact h.send hu
  | leaveFunnel w =>
    obtain ⟨u, hu, rfl⟩ := lift_moved ht
    exact h.leaveFunnel hsound hu
  | receiveAck w source =>
    obtain ⟨u, hu, rfl⟩ := lift_moved ht
    exact h.receiveAck hu
  | processTermination w =>
    obtain ⟨u, hu, rfl⟩ := lift_moved ht
    exact h.processTermination hsound hu
  | sendFinalSolution w report =>
    obtain ⟨u, hu, rfl⟩ := lift_moved ht
    exact h.sendFinalSolution hu
  | center m order =>
    obtain ⟨u, hu, hafter⟩ := Outcome.bind_eq_moved.mp ht
    have hphase := (handle_work hu).2
    have hclosing : u.toSchedulerState.Closing := by
      cases m with
      | state w tag =>
        obtain ⟨v, hv, rfl⟩ := Outcome.map_eq_moved.mp hu
        obtain ⟨n, hn, rfl⟩ := lift_moved hv
        cases tag with
        | RUNNING_STATE => exact h.consumeIntFlag hn
        | AVAILABLE_STATE => exact h.consumeIntFlag hn
      | scoreProposal =>
        simp only [handle] at hu
        split at hu
        · cases hu
          exact h
        · cases hu
      | task source bundle =>
        obtain ⟨_, _, rfl⟩ := processTaskForCenter_moved hu
        exact h
      | acknowledgement source =>
        obtain ⟨n, hn, rfl⟩ := lift_moved hu
        exact h.centerAck hn
    simp only [afterMessage] at hafter
    split at hafter
    · cases hafter
      exact hclosing.notifyTermination hphase
    · obtain ⟨_, _, rfl⟩ := clearBuffer_moved hafter
      exact hclosing
  | clearBuffer order =>
    obtain ⟨_, _, rfl⟩ := clearBuffer_moved ht
    exact h
  | centerBarrier =>
    obtain ⟨u, hu, rfl⟩ := lift_moved ht
    exact h.centerBarrier hu
  | receiveSolutionFrom w tag =>
    obtain ⟨u, hu, rfl⟩ := lift_moved ht
    exact h.receiveSolutionFrom hu

theorem served_step (h : Served s) {e : Event W} (ht : step e s = .moved t) : Served t := by
  have hsame : ∀ {u : SchedulerState W CenterOutbox},
      SchedulerState.SameCenter s.toSchedulerState u → u.centerPhase = .receiving →
        s.centerPhase = .receiving := by
    intro u hu hphase
    exact hu.centerPhase ▸ hphase
  cases e with
  | processMessage w source bundle =>
    exact lift_served h (fun _ hu => hsame (SchedulerState.processMessage_center hu)) ht
  | consumeCenterFullness w isFull =>
    exact lift_served h (fun _ hu => hsame (SchedulerState.updateOutbox_center hu)) ht
  | push w packet functionId =>
    exact lift_served h (fun _ hu => hsame (SchedulerState.push_center hu)) ht
  | send w => exact lift_served h (fun _ hu => hsame (SchedulerState.send_center hu)) ht
  | leaveFunnel w =>
    exact lift_served h (fun _ hu => hsame (SchedulerState.leaveFunnel_center hu)) ht
  | receiveAck w source =>
    exact lift_served h (fun _ hu => hsame (SchedulerState.receiveAck_center hu)) ht
  | processTermination w =>
    exact lift_served h (fun _ hu => hsame (SchedulerState.processTermination_center hu)) ht
  | sendFinalSolution w report =>
    exact lift_served h (fun _ hu => hsame (SchedulerState.sendFinalSolution_center hu)) ht
  | center m order =>
    obtain ⟨u, _, hafter⟩ := Outcome.bind_eq_moved.mp ht
    exact afterMessage_served hafter
  | clearBuffer order => exact clearBuffer_served ht
  | centerBarrier =>
    apply lift_served h _ ht
    intro u hu hphase
    exact (unseen_centerBarrier hu).receiving hphase
  | receiveSolutionFrom w tag =>
    apply lift_served h _ ht
    intro u hu hphase
    obtain ⟨hcollecting, ⟨_, _, _, rfl⟩ | ⟨_, _, _, rfl⟩⟩ :=
      SchedulerState.receiveSolutionFrom_moved hu
    · exact hphase
    · exact absurd hphase (nextPhase_ne_receiving w)

theorem bookkept_lift {f : SchedulerState W CenterOutbox → SchedulerState.Step W CenterOutbox}
    {u : SchedulerState W CenterOutbox} {e : Event W} (hu : f s.toSchedulerState = .moved u)
    (he : step e = State.lift f) (hreact : ∀ t, ∃ c, b.react e s t = .moved c) :
    ∃ t, (bookkept W).step (e, ()) (s, b) = .moved t := by
  obtain ⟨c, hc⟩ := hreact { s with toSchedulerState := u }
  refine ⟨({ s with toSchedulerState := u }, c), Machine.extend_moved.mpr ⟨?_, hc⟩⟩
  have hlift : step e s = s.lift f := congrFun he s
  exact hlift.trans (Outcome.map_eq_moved.mpr ⟨u, hu, rfl⟩)

/-- The center always gets from a message to the end of its iteration. -/
theorem afterMessage_goesOn (hphase : s.centerPhase = .receiving) :
    ∃ order t, afterMessage order s = .moved t := by
  obtain ⟨order, horder⟩ : ∃ order : List Ticketed, s.queue = order :=
    ⟨s.queue.toList, s.queue.coe_toList.symm⟩
  refine ⟨order, ?_⟩
  rw [afterMessage]
  split
  · exact ⟨_, rfl⟩
  · rw [clearBuffer, if_pos ⟨hphase, horder⟩]
    exact ⟨_, rfl⟩

theorem center_goesOn {m : CenterMessage W} (hm : handle m s = .moved t)
    (hreact : ∀ order u, ∃ c, b.react (.center m order) s u = .moved c) :
    ∃ order u, (bookkept W).step (.center m order, ()) (s, b) = .moved u := by
  obtain ⟨order, u, hu⟩ := afterMessage_goesOn (handle_work hm).2
  obtain ⟨c, hc⟩ := hreact order u
  refine ⟨order, (u, c), Machine.extend_moved.mpr ⟨?_, hc⟩⟩
  exact Outcome.bind_eq_moved.mpr ⟨t, hm, hu⟩

namespace Underway

theorem sendSeed (seed : TaskBundle) : Underway (sendSeed seed : State W) Books.sendSeed where
  invariant := invariant_sendSeed seed
  booked := Booked.sendSeed seed
  closing := SchedulerState.closing_sendSeed _ seed
  served _ := Or.inl rfl

theorem step (h : Underway s b) {e : Event W} {c : Books W}
    (ht : Centralized.step e s = .moved t) (hreact : b.react e s t = .moved c) : Underway t c where
  invariant := h.invariant.step e ht
  booked := h.booked.step ht hreact
  closing := closing_step h.closing h.invariant.sound ht
  served := served_step h.served ht

theorem of_reachable {s : State W × Books W} (h : (bookkept W).Reachable s) :
    Underway s.1 s.2 := by
  apply Machine.ReachableWhere.extension (I := Underway) ?_ ?_ h
  · rintro s b ⟨seed, rfl⟩ rfl
    exact sendSeed seed
  · intro s b e _ t c _ hs ht hreact
    exact hs.step ht hreact

theorem send_goesOn (h : Underway s b) {w : WorkerRank W}
    (hphase : (s.worker w).phase = .executing)
    (hqueue : (s.outgoing w).tasksBundleQueue ≠ []) :
    ∃ u, s.toSchedulerState.send sendSection w = .moved u := by
  obtain ⟨bundle, hbundle⟩ : ∃ bundle, (s.worker w).outbox.tasksBundleQueue = [bundle] := by
    have hconsistent : (s.worker w).outbox.tasksBundleQueue.length =
        (s.worker w).outbox.transmitting.toNat := h.invariant.sound.outbox w
    have hpos := List.length_pos_iff.mpr hqueue
    have hle := Bool.toNat_le (s.worker w).outbox.transmitting
    apply List.length_eq_one_iff.mp
    change 0 < (s.worker w).outbox.tasksBundleQueue.length at hpos
    omega
  have hsection : ∃ rest, sendSection (s.worker w).outbox =
      some (.ok (W.center, bundle, rest)) := by
    simp [sendSection, CenterOutbox.sendSection, hbundle, Outgoing.endTransmission, Except.map]
  obtain ⟨rest, hsection⟩ := hsection
  rw [SchedulerState.send, if_pos hphase, hsection]
  exact ⟨_, rfl⟩

/-- With nothing in flight and no worker executing, some report is left, or the center has left
its loop. -/
theorem report_left (h : Underway s b) (hcenter : s.centerPhase = .receiving)
    (htasks : s.network.tasks = 0) (hacks : s.network.acks = 0)
    (hexec : ∀ w, (s.worker w).phase ≠ .executing) : ∃ w, b.inFlight w ≠ [] := by
  by_contra hnone
  have hnone : ∀ w, b.inFlight w = [] := fun w => not_not.mp fun hw => hnone ⟨w, hw⟩
  have havailable : ∀ w, s.processState w = .AVAILABLE_STATE := by
    intro w
    cases h.booked.stage hcenter w with
    | idle hassigned => exact not_not.mp hassigned
    | sent _ _ hone =>
      have hzero : (view s b w).tasks = 0 := by simp [view, toWorker, htasks]
      omega
    | accepted _ _ _ hexecuting => exact absurd hexecuting (hexec w)
    | ended _ _ _ _ hreports => cases (hnone w).symm.trans hreports
    | running _ _ _ hexecuting => exact absurd hexecuting (hexec w)
    | finished _ _ _ _ hreports => cases (hnone w).symm.trans hreports
  obtain hqueue | hserved := h.served hcenter
  · exact (h.invariant.exited htasks hacks hexec hqueue).2 hcenter
  · exact hserved W.firstWorker (havailable W.firstWorker)

theorem report_goesOn (h : Underway s b) (hcenter : s.centerPhase = .receiving)
    {w : WorkerRank W} {tag : StateTag} {rest : List StateTag} (hw : b.inFlight w = tag :: rest) :
    ∃ order t, (bookkept W).step (.center (.state w tag) order, ()) (s, b) = .moved t := by
  have hmem : (w, tag) ∈ s.notices := by
    rw [← Multiset.count_pos, h.booked.queued, hw, List.count_cons_self]
    exact Nat.succ_pos _
  have hconsume : s.toSchedulerState.consumeIntFlag w tag =
      .moved { s.toSchedulerState with notices := s.notices.erase (w, tag) } :=
    if_pos ⟨hcenter, hmem⟩
  have hlift : s.lift (SchedulerState.consumeIntFlag w tag) =
      .moved { s with notices := s.notices.erase (w, tag) } :=
    Outcome.map_eq_moved.mpr ⟨_, hconsume, rfl⟩
  have hhead : (b.inFlight w).head? = some tag := congrArg List.head? hw
  have hreceive : ∃ c, b.receive w tag = .moved c := by
    rw [Books.receive, if_pos hhead]
    exact ⟨_, rfl⟩
  obtain ⟨c, hc⟩ := hreceive
  exact center_goesOn (Outcome.map_eq_moved.mpr ⟨_, hlift, rfl⟩)
    fun _ _ => ⟨_, Outcome.map_eq_moved.mpr ⟨c, hc, rfl⟩⟩

/-- While the center is in its loop, a message in flight or a task at a worker moves on. -/
theorem working_goesOn (h : Underway s b) (hcenter : s.centerPhase = .receiving) :
    ∃ e t, internal e = true ∧ (bookkept W).step (e, ()) (s, b) = .moved t := by
  have hphases := SchedulerState.receiving_or_executing h.closing hcenter
  by_cases hexecuting : ∃ w, (s.worker w).phase = .executing
  · obtain ⟨w, hw⟩ := hexecuting
    by_cases hqueue : (s.outgoing w).tasksBundleQueue = []
    · obtain ⟨u, hu⟩ := SchedulerState.leaveFunnel_goesOn hw hqueue
      obtain ⟨t, ht⟩ := bookkept_lift (e := .leaveFunnel w) hu rfl fun _ => ⟨_, rfl⟩
      exact ⟨.leaveFunnel w, t, rfl, ht⟩
    · obtain ⟨u, hu⟩ := h.send_goesOn hw hqueue
      obtain ⟨t, ht⟩ := bookkept_lift (e := .send w) hu rfl fun _ => ⟨_, rfl⟩
      exact ⟨.send w, t, rfl, ht⟩
  · have hreceiving : ∀ w, (s.worker w).phase = .receiving := by
      intro w
      exact (hphases w).resolve_right fun hw => hexecuting ⟨w, hw⟩
    obtain htasks | ⟨m, hm⟩ := s.network.tasks.empty_or_exists_mem
    · obtain hacks | ⟨a, ha⟩ := s.network.acks.empty_or_exists_mem
      · obtain ⟨w, hw⟩ := h.report_left hcenter htasks hacks fun w hw => hexecuting ⟨w, hw⟩
        obtain ⟨tag, rest, hinFlight⟩ := List.exists_cons_of_ne_nil hw
        obtain ⟨order, t, ht⟩ := h.report_goesOn hcenter hinFlight
        exact ⟨.center (.state w tag) order, t, rfl, ht⟩
      · obtain ⟨source, destination⟩ := a
        by_cases hdestination : destination = W.center
        · subst hdestination
          obtain ⟨u, hu⟩ := SchedulerState.centerAck_goesOn h.invariant.sound hcenter ha
          obtain ⟨order, t, ht⟩ := center_goesOn (b := b) (m := .acknowledgement source)
            (Outcome.map_eq_moved.mpr ⟨u, hu, rfl⟩) fun _ _ => ⟨_, rfl⟩
          exact ⟨.center (.acknowledgement source) order, t, rfl, ht⟩
        · obtain ⟨u, hu⟩ := SchedulerState.receiveAck_goesOn (w := ⟨destination, hdestination⟩)
            h.invariant.sound (hreceiving _) ha
          obtain ⟨t, ht⟩ := bookkept_lift (e := .receiveAck ⟨destination, hdestination⟩ source) hu
            rfl fun _ => ⟨_, rfl⟩
          exact ⟨.receiveAck ⟨destination, hdestination⟩ source, t, rfl, ht⟩
    · obtain ⟨source, destination, bundle⟩ := m
      by_cases hdestination : destination = W.center
      · subst hdestination
        obtain ⟨order, t, ht⟩ := center_goesOn (b := b) (m := .task source bundle)
          (if_pos ⟨hcenter, hm⟩) fun _ _ => ⟨_, rfl⟩
        exact ⟨.center (.task source bundle) order, t, rfl, ht⟩
      · obtain ⟨u, hu⟩ := SchedulerState.processMessage_goesOn
          (w := ⟨destination, hdestination⟩) (hreceiving _) hm
        obtain ⟨t, ht⟩ := bookkept_lift
          (e := .processMessage ⟨destination, hdestination⟩ source bundle) hu rfl
          fun _ => ⟨_, rfl⟩
        exact ⟨.processMessage ⟨destination, hdestination⟩ source bundle, t, rfl, ht⟩

end Underway

/-- All solutions are in, and nothing of the computation is left. -/
structure Ended (s : State W) : Prop where
  quiet : s.toSchedulerState.Quiet
  queue : s.queue = 0
  finished : s.toSchedulerState.Finished

theorem Underway.goesOn (h : Underway s b) :
    Ended s ∨ ∃ e t, internal e = true ∧ (bookkept W).step (e, ()) (s, b) = .moved t := by
  by_cases hcenter : s.centerPhase = .receiving
  · exact Or.inr (h.working_goesOn hcenter)
  · obtain hfinished | ⟨w, u, hu⟩ | ⟨u, hu⟩ | ⟨w, u, hu⟩ | ⟨w, report, u, hu⟩ :=
      SchedulerState.closing_goesOn h.invariant.sound h.closing hcenter
    · exact Or.inl ⟨h.invariant.sound.quiet hcenter, h.invariant.emptied hcenter, hfinished⟩
    · obtain ⟨t, ht⟩ := bookkept_lift (e := .processTermination w) hu rfl fun _ => ⟨_, rfl⟩
      exact Or.inr ⟨.processTermination w, t, rfl, ht⟩
    · obtain ⟨t, ht⟩ := bookkept_lift (e := .centerBarrier) hu rfl fun _ => ⟨_, rfl⟩
      exact Or.inr ⟨.centerBarrier, t, rfl, ht⟩
    · obtain ⟨t, ht⟩ := bookkept_lift (e := .sendFinalSolution w none) hu rfl fun _ => ⟨_, rfl⟩
      exact Or.inr ⟨.sendFinalSolution w none, t, rfl, ht⟩
    · obtain ⟨t, ht⟩ := bookkept_lift (e := .receiveSolutionFrom w (.report report)) hu rfl
        fun _ => ⟨_, rfl⟩
      exact Or.inr ⟨.receiveSolutionFrom w (.report report), t, rfl, ht⟩

/-- Steps of the processes end with all solutions collected, whatever their order; only a push
adds to what they can still do. -/
theorem centralized_completes {s : State W × Books W} (h : (bookkept W).Reachable s) :
    (bookkept W).Completes (fun l => internal l.1) (fun l => gain l.1) (fun s => s.1.work)
        (fun s => Ended s.1) s ∧
      ∃ ls t, (∀ l ∈ ls, internal l.1 = true) ∧ (bookkept W).run ls s = some t ∧ Ended t.1 := by
  have hcompletes : (bookkept W).Completes (fun l => internal l.1) (fun l => gain l.1)
      (fun s => s.1.work) (fun s => Ended s.1) s := by
    apply Machine.completes_of (I := fun s : State W × Books W => Underway s.1 s.2)
    · intro s l t ht
      exact step_work (Machine.extend_moved.mp ht).1
    · intro s l t hs _ ht
      obtain ⟨hbase, hreact⟩ := Machine.extend_moved.mp ht
      exact hs.step hbase hreact
    · intro s hs
      obtain hended | ⟨e, t, he, ht⟩ := hs.goesOn
      · exact Or.inl hended
      · exact Or.inr ⟨(e, ()), t, he, ht⟩
    · exact Underway.of_reachable h
  refine ⟨hcompletes, hcompletes.exists_final ?_⟩
  rintro ⟨e, _⟩ he
  cases e with
  | push => cases he
  | processMessage | consumeCenterFullness | send | leaveFunnel | receiveAck
  | processTermination | sendFinalSolution | center | clearBuffer | centerBarrier
  | receiveSolutionFrom => rfl

/-- The task of rank 1 goes through the center to rank 2, whose own goes on to rank 3. -/
def handedOn : List (Event World.four) :=
  let first := World.four.firstWorker
  let c := World.four.center
  let x : Ticketed := ⟨0, ⟨[5], 1⟩⟩
  let y : Ticketed := ⟨1, ⟨[6], 1⟩⟩
  [.processMessage first c ⟨[7], 3⟩, .push first [5] 1, .send first,
    .center (.task first x.bundle) [x], .processMessage secondOfFour c x.bundle,
    .push secondOfFour [6] 1, .send secondOfFour, .center (.task secondOfFour y.bundle) [y]]

theorem centralized_completes_handedOn : ∃ s : State .four × Books .four,
    (bookkept .four).run (handedOn.map (·, ())) (sendSeed ⟨[7], 3⟩, Books.sendSeed) = some s ∧
      s.1.dispatched.length = 2 ∧ s.1.network.tasks.card = 1 ∧
      ∃ ls t, (∀ l ∈ ls, internal l.1 = true) ∧ (bookkept .four).run ls s = some t ∧
        Ended t.1 := by
  have hrun : ∃ s : State .four × Books .four,
      (bookkept .four).run (handedOn.map (·, ())) (sendSeed ⟨[7], 3⟩, Books.sendSeed) = some s ∧
        s.1.dispatched.length = 2 ∧ s.1.network.tasks.card = 1 := ⟨_, rfl, rfl, rfl⟩
  obtain ⟨s, hs, hdispatched, htasks⟩ := hrun
  have hstart : (bookkept .four).Reachable (sendSeed ⟨[7], 3⟩, Books.sendSeed) :=
    .start ⟨⟨_, rfl⟩, rfl⟩
  exact ⟨s, hs, hdispatched, htasks, (centralized_completes (hstart.run hs)).2⟩

end Gempba.Centralized
