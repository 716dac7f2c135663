import Gempba.Library.Flow
import Gempba.Schedulers.Centralized
import Gempba.Schedulers.SemiCentralized

/-!
# The flow of tasks in both schedulers

The sites that send a task and the sites that receive one, and the proof that
no other step touches the tasks in flight.
-/

namespace Gempba

set_option autoImplicit false

variable {W : World}

/-- The task that a pass of the funnel's send loop sends. -/
def taskFunneling {Ω : Type} (w : WorkerRank W)
    (sent : Option (Except Fault (Rank W × TaskBundle × Ω))) : List (TaskMessage W) :=
  match sent with
  | some (.ok (destination, bundle, _)) => [⟨w, destination, bundle⟩]
  | _ => []

/-- A step that sends `sent` and receives `received`. -/
def Carries (received sent : List (TaskMessage W)) (before after : Multiset (TaskMessage W)) :
    Prop :=
  ∃ rest, before = received + rest ∧ after = sent + rest

theorem Carries.nothing {before after : Multiset (TaskMessage W)} (h : after = before) :
    Carries [] [] before after := by
  refine ⟨before, ?_, ?_⟩
  · rw [Multiset.coe_nil, Multiset.zero_add]
  · rw [Multiset.coe_nil, Multiset.zero_add, h]

theorem Carries.receive {m : TaskMessage W} {before : Multiset (TaskMessage W)}
    (hm : m ∈ before) : Carries [m] [] before (before.erase m) := by
  refine ⟨before.erase m, ?_, ?_⟩
  · rw [Multiset.coe_singleton, Multiset.singleton_add, Multiset.cons_erase hm]
  · rw [Multiset.coe_nil, Multiset.zero_add]

theorem Carries.send (sent : List (TaskMessage W)) (before : Multiset (TaskMessage W)) :
    Carries [] sent before (sent + before) := by
  refine ⟨before, ?_, rfl⟩
  rw [Multiset.coe_nil, Multiset.zero_add]

theorem Carries.andSend {received sent : List (TaskMessage W)}
    {before after : Multiset (TaskMessage W)} (h : Carries received [] before after) :
    Carries received sent before (sent + after) := by
  obtain ⟨rest, hbefore, hafter⟩ := h
  rw [Multiset.coe_nil, Multiset.zero_add] at hafter
  exact ⟨rest, hbefore, by rw [hafter]⟩

namespace SchedulerState

variable {Ω : Type} {s t : SchedulerState W Ω}

theorem processMessage_carries {w : WorkerRank W} {source : Rank W} {bundle : TaskBundle}
    (h : processMessage w source bundle s = .moved t) :
    Carries [⟨source, w, bundle⟩] [] s.network.tasks t.network.tasks := by
  obtain ⟨_, hmem, rfl⟩ := processMessage_moved h
  have hreceive := Carries.receive hmem
  rwa [← TaskNetwork.receiveTask_tasks] at hreceive

theorem send_carries {sendSection : Ω → Option (Except Fault (Rank W × TaskBundle × Ω))}
    {w : WorkerRank W} (h : send sendSection w s = .moved t) :
    Carries [] (taskFunneling w (sendSection (s.worker w).outbox)) s.network.tasks
      t.network.tasks := by
  obtain ⟨_, destination, bundle, outbox, hsend, rfl⟩ := send_moved h
  rw [hsend]
  exact Carries.send [⟨w, destination, bundle⟩] s.network.tasks

theorem leaveFunnel_tasks [Outbox Ω] {w : WorkerRank W} (h : leaveFunnel w s = .moved t) :
    t.network.tasks = s.network.tasks := by
  obtain ⟨_, _, rfl⟩ := leaveFunnel_moved h
  exact TaskNetwork.releaseParentIfPassive_tasks w.val s.network

theorem receiveAck_tasks {w : WorkerRank W} {source : Rank W}
    (h : receiveAck w source s = .moved t) : t.network.tasks = s.network.tasks := by
  obtain ⟨_, _, network, hack, rfl⟩ := receiveAck_moved h
  cases TaskNetwork.processTaskReceivedAck_eq_some hack
  exact TaskNetwork.releaseParentIfPassive_tasks w.val _

theorem centerAck_tasks {source : Rank W} (h : centerAck source s = .moved t) :
    t.network.tasks = s.network.tasks := by
  obtain ⟨_, _, network, hack, rfl⟩ := centerAck_moved h
  cases TaskNetwork.processTaskReceivedAck_eq_some hack
  rfl

theorem updateOutbox_tasks {phases : List WorkerPhase} {f : Ω → Ω} {w : WorkerRank W}
    (h : updateOutbox phases f w s = .moved t) : t.network.tasks = s.network.tasks := by
  obtain ⟨_, rfl⟩ := updateOutbox_moved h
  rfl

theorem push_tasks {tryOpen : Ω → Bool} {forcePush : Ω → Except Fault Ω} {w : WorkerRank W}
    (h : push tryOpen forcePush w s = .moved t) : t.network.tasks = s.network.tasks := by
  obtain ⟨_, _, outbox, _, rfl⟩ := push_moved h
  rfl

theorem processTermination_tasks [Outbox Ω] {w : WorkerRank W}
    (h : processTermination w s = .moved t) : t.network.tasks = s.network.tasks := by
  obtain ⟨_, _, rfl⟩ := processTermination_moved h
  rfl

theorem sendFinalSolution_tasks {w : WorkerRank W} {report : Report}
    (h : sendFinalSolution w report s = .moved t) : t.network.tasks = s.network.tasks := by
  obtain ⟨_, _, rfl⟩ := sendFinalSolution_moved h
  rfl

theorem consumeIntFlag_tasks {w : WorkerRank W} {tag : StateTag}
    (h : consumeIntFlag w tag s = .moved t) : t.network.tasks = s.network.tasks := by
  obtain ⟨_, _, rfl⟩ := consumeIntFlag_moved h
  rfl

theorem centerBarrier_tasks (h : centerBarrier s = .moved t) :
    t.network.tasks = s.network.tasks := by
  obtain ⟨_, _, rfl⟩ := centerBarrier_moved h
  rfl

theorem receiveSolutionFrom_tasks {w : WorkerRank W} {tag : ProbedTag}
    (h : receiveSolutionFrom w tag s = .moved t) : t.network.tasks = s.network.tasks := by
  obtain ⟨_, ⟨_, _, _, rfl⟩ | ⟨_, _, _, rfl⟩⟩ := receiveSolutionFrom_moved h
  · rfl
  · rfl

end SchedulerState

namespace SemiCentralized

def receives : Event W → List (TaskMessage W)
  | .processMessage w source bundle => [⟨source, w, bundle⟩]
  | _ => []

def sends : Event W → State W → List (TaskMessage W)
  | .send w, s => taskFunneling w (sendSection w (s.worker w).outbox)
  | _, _ => []

theorem carries {s t : State W} {e : Event W} (h : step e s = .moved t) :
    Carries (receives e) (sends e s) s.network.tasks t.network.tasks := by
  cases e with
  | receiveNextProcess w ranks => exact .nothing (SchedulerState.updateOutbox_tasks h)
  | processMessage w source bundle => exact SchedulerState.processMessage_carries h
  | poll w ranks => exact .nothing (SchedulerState.updateOutbox_tasks h)
  | push w packet functionId => exact .nothing (SchedulerState.push_tasks h)
  | send w => exact SchedulerState.send_carries h
  | leaveFunnel w => exact .nothing (SchedulerState.leaveFunnel_tasks h)
  | receiveAck w source => exact .nothing (SchedulerState.receiveAck_tasks h)
  | processTermination w => exact .nothing (SchedulerState.processTermination_tasks h)
  | sendFinalSolution w report => exact .nothing (SchedulerState.sendFinalSolution_tasks h)
  | centerState w tag => exact .nothing (SchedulerState.consumeIntFlag_tasks h)
  | centerAck source =>
    obtain ⟨u, hack, rfl⟩ := Transition.Outcome.map_eq_moved.mp h
    have htasks := SchedulerState.centerAck_tasks hack
    split
    · exact .nothing htasks
    · exact .nothing htasks
  | centerBarrier => exact .nothing (SchedulerState.centerBarrier_tasks h)
  | receiveSolutionFrom w tag => exact .nothing (SchedulerState.receiveSolutionFrom_tasks h)

def flow (W : World) : Transition.Flow (machine W) (TaskMessage W) where
  inFlight s := s.network.tasks
  receives := receives
  sends e s _ := sends e s
  moves _ _ _ h := carries h

end SemiCentralized

namespace Centralized

def receives : Event W → List (TaskMessage W)
  | .processMessage w source bundle => [⟨source, w, bundle⟩]
  | .center (.task source bundle) _ => [⟨source, W.center, bundle⟩]
  | _ => []

/-- What `clear_buffer` sent between two states, in the reverse order of the calls. -/
def clearedBuffer (s t : State W) : List (TaskMessage W) :=
  ((t.dispatched.drop s.dispatched.length).map fun d => ⟨W.center, d.1, d.2.bundle⟩).reverse

def sends : Event W → State W → State W → List (TaskMessage W)
  | .send w, s, _ => taskFunneling w (sendSection (s.worker w).outbox)
  | .center _ _, s, t => clearedBuffer s t
  | .clearBuffer _, s, t => clearedBuffer s t
  | _, _, _ => []

theorem sendToAvailable_tasks (sent : List (WorkerRank W × Ticketed)) (n : TaskNetwork W) :
    (sendToAvailable sent n).tasks =
      (sent.map fun d => (⟨W.center, d.1, d.2.bundle⟩ : TaskMessage W)).reverse + n.tasks := by
  induction sent generalizing n with
  | nil => exact (zero_add n.tasks).symm
  | cons d sent ih =>
    rw [sendToAvailable, List.foldl_cons, ← sendToAvailable, ih, TaskNetwork.sendTask_tasks,
      List.map_cons, List.reverse_cons, ← Multiset.coe_add, add_assoc, Multiset.coe_singleton,
      Multiset.singleton_add]

theorem clearBuffer_carries {s t : State W} {order : List Ticketed}
    (h : clearBuffer order s = .moved t) :
    t.network.tasks = clearedBuffer s t + s.network.tasks := by
  obtain ⟨_, _, rfl⟩ := clearBuffer_moved h
  simp only [clearedBuffer, List.drop_left]
  exact sendToAvailable_tasks _ _

/-- The handlers of a message send no task and leave the log of dispatches alone. -/
theorem handle_carries {s t : State W} {m : CenterMessage W} (order : List Ticketed)
    (h : handle m s = .moved t) :
    Carries (receives (.center m order)) [] s.network.tasks t.network.tasks ∧
      t.dispatched = s.dispatched := by
  cases m with
  | state w tag =>
    obtain ⟨u, hu, rfl⟩ := Transition.Outcome.map_eq_moved.mp h
    obtain ⟨v, hv, rfl⟩ := lift_moved hu
    have htasks := SchedulerState.consumeIntFlag_tasks hv
    cases tag with
    | RUNNING_STATE => exact ⟨.nothing htasks, rfl⟩
    | AVAILABLE_STATE => exact ⟨.nothing htasks, rfl⟩
  | scoreProposal =>
    simp only [handle] at h
    split at h
    · cases h
      exact ⟨.nothing rfl, rfl⟩
    · cases h
  | task source bundle =>
    obtain ⟨_, hmem, rfl⟩ := processTaskForCenter_moved h
    have hreceive := Carries.receive hmem
    rw [← TaskNetwork.receiveTask_tasks] at hreceive
    exact ⟨hreceive, rfl⟩
  | acknowledgement source =>
    obtain ⟨u, hu, rfl⟩ := lift_moved h
    exact ⟨.nothing (SchedulerState.centerAck_tasks hu), rfl⟩

theorem carries {s t : State W} {e : Event W} (h : step e s = .moved t) :
    Carries (receives e) (sends e s t) s.network.tasks t.network.tasks := by
  cases e with
  | processMessage w source bundle =>
    obtain ⟨u, hu, rfl⟩ := lift_moved h
    exact SchedulerState.processMessage_carries hu
  | consumeCenterFullness w isFull =>
    obtain ⟨u, hu, rfl⟩ := lift_moved h
    exact .nothing (SchedulerState.updateOutbox_tasks hu)
  | push w packet functionId =>
    obtain ⟨u, hu, rfl⟩ := lift_moved h
    exact .nothing (SchedulerState.push_tasks hu)
  | send w =>
    obtain ⟨u, hu, rfl⟩ := lift_moved h
    exact SchedulerState.send_carries hu
  | leaveFunnel w =>
    obtain ⟨u, hu, rfl⟩ := lift_moved h
    exact .nothing (SchedulerState.leaveFunnel_tasks hu)
  | receiveAck w source =>
    obtain ⟨u, hu, rfl⟩ := lift_moved h
    exact .nothing (SchedulerState.receiveAck_tasks hu)
  | processTermination w =>
    obtain ⟨u, hu, rfl⟩ := lift_moved h
    exact .nothing (SchedulerState.processTermination_tasks hu)
  | sendFinalSolution w report =>
    obtain ⟨u, hu, rfl⟩ := lift_moved h
    exact .nothing (SchedulerState.sendFinalSolution_tasks hu)
  | center m order =>
    obtain ⟨u, hu, hafter⟩ := Transition.Outcome.bind_eq_moved.mp h
    obtain ⟨hcarries, hdispatched⟩ := handle_carries order hu
    have hcleared : clearedBuffer u t = clearedBuffer s t := by
      rw [clearedBuffer, hdispatched, clearedBuffer]
    simp only [afterMessage] at hafter
    split at hafter
    · cases hafter
      have hnone : clearedBuffer s { u with
          toSchedulerState := u.toSchedulerState.notifyTermination } = [] := by
        simp [clearedBuffer, hdispatched]
      rw [sends, hnone]
      exact hcarries
    · rw [clearBuffer_carries hafter, hcleared]
      exact hcarries.andSend
  | clearBuffer order =>
    rw [clearBuffer_carries h]
    exact .send _ _
  | centerBarrier =>
    obtain ⟨u, hu, rfl⟩ := lift_moved h
    exact .nothing (SchedulerState.centerBarrier_tasks hu)
  | receiveSolutionFrom w tag =>
    obtain ⟨u, hu, rfl⟩ := lift_moved h
    exact .nothing (SchedulerState.receiveSolutionFrom_tasks hu)

def flow (W : World) : Transition.Flow (machine W) (TaskMessage W) where
  inFlight s := s.network.tasks
  receives := receives
  sends := sends
  moves _ _ _ h := carries h

end Centralized

end Gempba
