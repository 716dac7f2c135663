import Gempba.Library.Completion
import Gempba.Schedulers.Traffic

/-!
# The work that remains in a scheduler

Every message in flight, every task that waits to be sent and every process
before its end is worth the steps that it can still cause. Handling a message
or sending a task uses up work; only a push brings some.
-/

namespace Gempba

set_option autoImplicit false

variable {W : World}

/-- A task for the center is queued there and sent on. -/
def TaskMessage.work (m : TaskMessage W) : ℕ := if m.destination = W.center then 8 else 5

def QUEUED_TASK_WORK : ℕ := 6

def PUSHED_TASK_WORK : ℕ := 9

def WorkerPhase.work : WorkerPhase → ℕ
  | .receiving => 3
  | .executing => 5
  | .barrier => 2
  | .reported => 0

def CenterPhase.work : CenterPhase W → ℕ
  | .receiving => W.size + 1
  | .barrier => W.size
  | .collecting next => W.size - next.val.val
  | .finished => 0

theorem TaskMessage.work_le (m : TaskMessage W) : m.work ≤ 8 := by
  rw [work]
  split <;> omega

theorem TaskMessage.le_work (m : TaskMessage W) : 5 ≤ m.work := by
  rw [work]
  split <;> omega

theorem nextPhase_work_lt (w : WorkerRank W) :
    (nextPhase w).work < (CenterPhase.collecting w).work := by
  have hlt := w.val.isLt
  rw [nextPhase]
  split
  · simp only [CenterPhase.work]
    omega
  · simp only [CenterPhase.work]
    omega

namespace TerminationDetector

variable {ρ : Type}

/-- The acknowledgement that an engaged rank will send. -/
def work (d : TerminationDetector ρ) : ℕ := d.parent.isSome.toNat

@[simp] theorem work_onTaskSent (d : TerminationDetector ρ) : d.onTaskSent.work = d.work := rfl

@[simp] theorem work_onAckReceived (d : TerminationDetector ρ) :
    d.onAckReceived.2.work = d.work := by
  rw [work, work, onAckReceived_parent]

theorem work_onTaskReceived (source : ρ) (d : TerminationDetector ρ) :
    (d.onTaskReceived source).1.isSome.toNat + (d.onTaskReceived source).2.work ≤ d.work + 1 := by
  rw [onTaskReceived]
  split
  · exact Nat.le_of_eq (Nat.add_comm 1 d.work)
  · exact Nat.le_add_left 1 d.work

theorem work_onPassive (d : TerminationDetector ρ) :
    d.onPassive.1.isSome.toNat + d.onPassive.2.work = d.work := by
  rw [onPassive]
  split
  · exact Nat.zero_add d.work
  · rfl

end TerminationDetector

namespace TaskNetwork

def work (n : TaskNetwork W) : ℕ :=
  (n.tasks.map TaskMessage.work).sum + n.acks.card + ∑ r, (n.detector r).work

variable {n : TaskNetwork W}

theorem work_sendTask (m : TaskMessage W) (n : TaskNetwork W) :
    (n.sendTask m).work = n.work + m.work := by
  have hsum := Transition.sum_update_add TerminationDetector.work n.detector m.source
    (n.detector m.source).onTaskSent
  rw [TerminationDetector.work_onTaskSent] at hsum
  simp only [work, sendTask, Multiset.map_cons, Multiset.sum_cons]
  omega

theorem work_receiveTask {m : TaskMessage W} (hm : m ∈ n.tasks) :
    (n.receiveTask m).work + m.work ≤ n.work + 1 := by
  have hsum := Transition.sum_update_add TerminationDetector.work n.detector m.destination
    ((n.detector m.destination).onTaskReceived m.source).2
  have hdetector := (n.detector m.destination).work_onTaskReceived m.source
  have htasks : m.work + ((n.tasks.erase m).map TaskMessage.work).sum =
      (n.tasks.map TaskMessage.work).sum := by
    rw [← Multiset.sum_cons, ← Multiset.map_cons, Multiset.cons_erase hm]
  unfold receiveTask
  cases hreceived : (n.detector m.destination).onTaskReceived m.source with
  | mk ack d =>
    rw [hreceived] at hsum hdetector
    cases ack with
    | none =>
      simp only [Option.isSome_none, Bool.toNat_false] at hsum hdetector
      simp only [work]
      omega
    | some r =>
      simp only [Option.isSome_some, Bool.toNat_true] at hsum hdetector
      simp only [work, sendTaskAck, Multiset.card_cons]
      omega

theorem work_processTaskReceivedAck {a : Acknowledgement W} {n' : TaskNetwork W} (ha : a ∈ n.acks)
    (h : n.processTaskReceivedAck a = some n') : n'.work + 1 = n.work := by
  have hsum := Transition.sum_update_add TerminationDetector.work n.detector a.destination
    (n.detector a.destination).onAckReceived.2
  have hcard := Multiset.card_erase_add_one ha
  cases processTaskReceivedAck_eq_some h
  rw [TerminationDetector.work_onAckReceived] at hsum
  simp only [work]
  omega

theorem work_releaseParentIfPassive (r : Rank W) (n : TaskNetwork W) :
    (n.releaseParentIfPassive r).work = n.work := by
  have hsum := Transition.sum_update_add TerminationDetector.work n.detector r
    (n.detector r).onPassive.2
  have hdetector := (n.detector r).work_onPassive
  unfold releaseParentIfPassive
  cases hpassive : (n.detector r).onPassive with
  | mk parent d =>
    rw [hpassive] at hsum hdetector
    cases parent with
    | none =>
      simp only [Option.isSome_none, Bool.toNat_false] at hsum hdetector
      simp only [work]
      omega
    | some p =>
      simp only [Option.isSome_some, Bool.toNat_true] at hsum hdetector
      simp only [work, sendTaskAck, Multiset.card_cons]
      omega

end TaskNetwork

namespace Worker

variable {Ω : Type} [Outbox Ω]

def work (v : Worker Ω) : ℕ :=
  v.phase.work + PUSHED_TASK_WORK * (Outbox.outgoing v.outbox).tasksBundleQueue.length

end Worker

namespace SchedulerState

variable {Ω : Type} [Outbox Ω] {s t : SchedulerState W Ω}

def work (s : SchedulerState W Ω) : ℕ :=
  s.network.work + s.notices.card + s.reports.card + ∑ w, (s.worker w).work + s.centerPhase.work

theorem work_setWorker (w : WorkerRank W) (v : Worker Ω) (s : SchedulerState W Ω) :
    (s.setWorker w v).work + (s.worker w).work = s.work + v.work := by
  have hsum := Transition.sum_update_add Worker.work s.worker w v
  simp only [work, setWorker]
  omega

theorem work_worker_phase {w : WorkerRank W} {phase : WorkerPhase}
    (h : (s.worker w).phase = phase) : (s.worker w).work =
      phase.work + PUSHED_TASK_WORK * (s.outgoing w).tasksBundleQueue.length := by
  rw [Worker.work, h]
  rfl

theorem work_processMessage {w : WorkerRank W} {source : Rank W} {bundle : TaskBundle}
    (h : processMessage w source bundle s = .moved t) : t.work < s.work := by
  obtain ⟨hphase, hmem, rfl⟩ := processMessage_moved h
  have hnetwork := TaskNetwork.work_receiveTask hmem
  have htask := (⟨source, w, bundle⟩ : TaskMessage W).le_work
  have hworker := work_setWorker w { s.worker w with phase := .executing }
    ((s.mapNetwork (·.receiveTask ⟨source, w, bundle⟩)).notify w .RUNNING_STATE)
  have hold := work_worker_phase hphase
  simp only [work, mapNetwork, notify, Multiset.card_cons, Worker.work, hphase, WorkerPhase.work]
    at hworker hold ⊢
  omega

theorem work_push {tryOpen : Ω → Bool} {forcePush : Ω → Except Fault Ω}
    (hpush : ∀ o o', forcePush o = .ok o' →
      (Outbox.outgoing o).tasksBundleQueue = [] ∧ (Outbox.outgoing o').tasksBundleQueue.length = 1)
    {w : WorkerRank W} (h : push tryOpen forcePush w s = .moved t) :
    t.work = s.work + PUSHED_TASK_WORK := by
  obtain ⟨hphase, _, outbox, hok, rfl⟩ := push_moved h
  obtain ⟨hempty, hone⟩ := hpush _ _ hok
  have hworker := work_setWorker w ⟨(s.worker w).phase, outbox⟩ s
  simp only [Worker.work, hempty, hone, List.length_nil] at hworker ⊢
  omega

theorem work_send {sendSection : Ω → Option (Except Fault (Rank W × TaskBundle × Ω))}
    (hsection : ∀ o destination bundle o', sendSection o = some (.ok (destination, bundle, o')) →
      (Outbox.outgoing o).tasksBundleQueue.length = 1 ∧ Outbox.outgoing o' = .initial)
    {w : WorkerRank W} (h : send sendSection w s = .moved t) : t.work < s.work := by
  obtain ⟨hphase, destination, bundle, outbox, hok, rfl⟩ := send_moved h
  obtain ⟨hone, hinitial⟩ := hsection _ _ _ _ hok
  have hnetwork := TaskNetwork.work_sendTask ⟨w, destination, bundle⟩ s.network
  have htask := (⟨w, destination, bundle⟩ : TaskMessage W).work_le
  have hworker := work_setWorker w { s.worker w with outbox }
    (s.mapNetwork (·.sendTask ⟨w, destination, bundle⟩))
  simp only [work, mapNetwork, Worker.work, hone, hinitial, Outgoing.initial, List.length_nil,
    PUSHED_TASK_WORK] at hworker ⊢
  omega

theorem work_updateOutbox {phases : List WorkerPhase} {f : Ω → Ω}
    (hf : ∀ o, Outbox.outgoing (f o) = Outbox.outgoing o) {w : WorkerRank W}
    (h : updateOutbox phases f w s = .moved t) : t.work = s.work := by
  obtain ⟨_, rfl⟩ := updateOutbox_moved h
  have hworker := work_setWorker w ⟨(s.worker w).phase, f (s.worker w).outbox⟩ s
  simp only [Worker.work, hf] at hworker ⊢
  omega

theorem work_leaveFunnel {w : WorkerRank W} (h : leaveFunnel w s = .moved t) :
    t.work < s.work := by
  obtain ⟨hphase, _, rfl⟩ := leaveFunnel_moved h
  have hnetwork := TaskNetwork.work_releaseParentIfPassive w s.network
  have hworker := work_setWorker w { s.worker w with phase := .receiving }
    ((s.notify w .AVAILABLE_STATE).mapNetwork (·.releaseParentIfPassive w))
  simp only [work, mapNetwork, notify, Multiset.card_cons, Worker.work, hphase, WorkerPhase.work]
    at hworker ⊢
  omega

theorem work_receiveAck {w : WorkerRank W} {source : Rank W}
    (h : receiveAck w source s = .moved t) : t.work < s.work := by
  obtain ⟨_, hmem, network, hack, rfl⟩ := receiveAck_moved h
  have hnetwork := TaskNetwork.work_processTaskReceivedAck hmem hack
  have hrelease := TaskNetwork.work_releaseParentIfPassive w network
  simp only [work]
  omega

theorem work_processTermination {w : WorkerRank W} (h : processTermination w s = .moved t) :
    t.work < s.work := by
  obtain ⟨hphase, _, rfl⟩ := processTermination_moved h
  have hworker := work_setWorker w { s.worker w with phase := .barrier }
    { s with terminations := s.terminations.erase w }
  simp only [work, Worker.work, hphase, WorkerPhase.work] at hworker ⊢
  omega

theorem work_sendFinalSolution {w : WorkerRank W} {report : Report}
    (h : sendFinalSolution w report s = .moved t) : t.work < s.work := by
  obtain ⟨hphase, _, rfl⟩ := sendFinalSolution_moved h
  have hworker := work_setWorker w { s.worker w with phase := .reported }
    { s with reports := (w, report) ::ₘ s.reports }
  simp only [work, Multiset.card_cons, Worker.work, hphase, WorkerPhase.work] at hworker ⊢
  omega

theorem work_consumeIntFlag {w : WorkerRank W} {tag : StateTag}
    (h : consumeIntFlag w tag s = .moved t) : t.work < s.work := by
  obtain ⟨_, hmem, rfl⟩ := consumeIntFlag_moved h
  have hcard := Multiset.card_erase_add_one hmem
  simp only [work]
  omega

theorem work_centerAck {source : Rank W} (h : centerAck source s = .moved t) :
    t.work < s.work ∧ t.centerPhase = .receiving := by
  obtain ⟨hphase, hmem, network, hack, rfl⟩ := centerAck_moved h
  have hnetwork := TaskNetwork.work_processTaskReceivedAck hmem hack
  refine ⟨?_, hphase⟩
  simp only [work]
  omega

theorem work_notifyTermination (h : s.centerPhase = .receiving) :
    s.notifyTermination.work < s.work := by
  simp only [work, notifyTermination, h, CenterPhase.work]
  omega

theorem work_centerBarrier (h : centerBarrier s = .moved t) : t.work < s.work := by
  obtain ⟨hphase, _, rfl⟩ := centerBarrier_moved h
  have htwo := W.two_le
  have hfirst : (CenterPhase.collecting W.firstWorker).work = W.size - 1 := rfl
  simp only [work, hphase, hfirst]
  simp only [CenterPhase.work]
  omega

theorem work_receiveSolutionFrom {w : WorkerRank W} {tag : ProbedTag}
    (h : receiveSolutionFrom w tag s = .moved t) : t.work < s.work := by
  obtain ⟨hphase, ⟨state, _, hmem, rfl⟩ | ⟨report, _, hmem, rfl⟩⟩ := receiveSolutionFrom_moved h
  · have hcard := Multiset.card_erase_add_one hmem
    simp only [work]
    omega
  · have hcard := Multiset.card_erase_add_one hmem
    have hnext := nextPhase_work_lt w
    simp only [work, hphase]
    omega

end SchedulerState

end Gempba
