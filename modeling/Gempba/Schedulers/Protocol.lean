import Gempba.Library.Machine
import Gempba.Schedulers.TaskNetwork
import Gempba.Schedulers.Outbox

/-!
# The protocol both schedulers share

All processes of a world with their channels, and the handlers that the two
schedulers have in common: the receipt of a task, the funnel's push and send,
the acknowledgements, `TERMINATION` and the collection of the solutions. A
scheduler supplies the outbox of its workers and what its center does besides.

Messages on the world communicator are multisets, one for each tag, so that
any message may be the next one delivered.
-/

namespace Gempba

set_option autoImplicit false

structure Worker (Ω : Type) where
  phase : WorkerPhase
  outbox : Ω

structure SchedulerState (W : World) (Ω : Type) where
  network : TaskNetwork W
  /-- State notifications in flight to the center. -/
  notices : Multiset (WorkerRank W × StateTag)
  /-- Workers whose `TERMINATION` is in flight. -/
  terminations : Multiset (WorkerRank W)
  /-- `HAS_RESULT` and `NO_RESULT` messages in flight to the center. -/
  reports : Multiset (WorkerRank W × Report)
  worker : WorkerRank W → Worker Ω
  centerPhase : CenterPhase W
  bestResults : Rank W → Result

namespace SchedulerState

variable {W : World} {Ω : Type}

abbrev Step (W : World) (Ω : Type) := Transition.Outcome Fault (SchedulerState W Ω)

def deficit (s : SchedulerState W Ω) : ℕ := (s.network.detector W.center).deficit

def executing (s : SchedulerState W Ω) (r : Rank W) : Prop :=
  ∃ h : r ≠ W.center, (s.worker ⟨r, h⟩).phase = .executing

def setWorker (w : WorkerRank W) (v : Worker Ω) (s : SchedulerState W Ω) : SchedulerState W Ω :=
  { s with worker := Function.update s.worker w v }

/-- `notify_running_state` and `notify_available_state`. -/
def notify (w : WorkerRank W) (tag : StateTag) (s : SchedulerState W Ω) : SchedulerState W Ω :=
  { s with notices := (w, tag) ::ₘ s.notices }

def mapNetwork (f : TaskNetwork W → TaskNetwork W) (s : SchedulerState W Ω) :
    SchedulerState W Ω :=
  { s with network := f s.network }

/-- `send_seed`, after which the center enters its receive loop. -/
def sendSeed (outbox : Ω) (seed : TaskBundle) : SchedulerState W Ω where
  network := TaskNetwork.initial.sendTask ⟨W.center, W.first, seed⟩
  notices := 0
  terminations := 0
  reports := 0
  worker _ := ⟨.receiving, outbox⟩
  centerPhase := .receiving
  bestResults _ := Result.EMPTY

variable {s t : SchedulerState W Ω}

theorem executing_iff (s : SchedulerState W Ω) (w : WorkerRank W) :
    s.executing w ↔ (s.worker w).phase = .executing :=
  ⟨fun ⟨_, h⟩ => h, fun h => ⟨w.property, h⟩⟩

theorem executing_setWorker_ne (s : SchedulerState W Ω) (w : WorkerRank W) (v : Worker Ω)
    {r : Rank W} (hr : r ≠ w) : (s.setWorker w v).executing r ↔ s.executing r := by
  apply exists_congr
  intro h
  have hne : (⟨r, h⟩ : WorkerRank W) ≠ w := fun he => hr (congrArg Subtype.val he)
  simp [setWorker, Function.update_of_ne hne]

theorem executing_setWorker_self (s : SchedulerState W Ω) (w : WorkerRank W) (v : Worker Ω) :
    (s.setWorker w v).executing w ↔ v.phase = .executing := by
  simp [executing_iff, setWorker]

theorem executing_setWorker_eq (s : SchedulerState W Ω) (w : WorkerRank W) (v : Worker Ω)
    (hphase : v.phase = .executing ↔ (s.worker w).phase = .executing) :
    (s.setWorker w v).executing = s.executing := by
  funext r
  apply propext
  by_cases hr : r = w
  · subst hr
    rw [executing_setWorker_self, executing_iff, hphase]
  · exact executing_setWorker_ne s w v hr

theorem forall_setWorker {P : Worker Ω → Prop} (h : ∀ x, P (s.worker x))
    {w : WorkerRank W} {v : Worker Ω} (hv : P v) (x : WorkerRank W) :
    P ((s.setWorker w v).worker x) := by
  by_cases hx : x = w
  · subst hx
    simpa [setWorker] using hv
  · simpa [setWorker, Function.update_of_ne hx] using h x

@[simp] theorem deficit_sendSeed (outbox : Ω) (seed : TaskBundle) :
    (sendSeed outbox seed : SchedulerState W Ω).deficit = 1 := by
  simp [sendSeed, deficit, TaskNetwork.initial, TaskNetwork.sendTask,
    TerminationDetector.onTaskSent, TerminationDetector.make]

section Handlers

variable [Outbox Ω]

def outgoing (s : SchedulerState W Ω) (w : WorkerRank W) : Outgoing :=
  Outbox.outgoing (s.worker w).outbox

/-- `process_message` up to the start of the funnel. -/
def processMessage (w : WorkerRank W) (source : Rank W) (bundle : TaskBundle)
    (s : SchedulerState W Ω) : Step W Ω :=
  let v := s.worker w
  let m : TaskMessage W := ⟨source, w, bundle⟩
  if v.phase = .receiving ∧ m ∈ s.network.tasks then
    .moved (((s.mapNetwork (·.receiveTask m)).notify w .RUNNING_STATE).setWorker w
      { v with phase := .executing })
  else .blocked

/-- A pool thread opens the transmission channel and pushes a task. -/
def push (tryOpenTransmissionChannel : Ω → Bool) (forcePush : Ω → Except Fault Ω)
    (w : WorkerRank W) (s : SchedulerState W Ω) : Step W Ω :=
  let v := s.worker w
  if v.phase = .executing ∧ tryOpenTransmissionChannel v.outbox then
    match forcePush v.outbox with
    | .ok outbox => .moved (s.setWorker w { v with outbox })
    | .error e => .raised e
  else .blocked

/-- The send section of the funnel. -/
def send (sendSection : Ω → Option (Except Fault (Rank W × TaskBundle × Ω)))
    (w : WorkerRank W) (s : SchedulerState W Ω) : Step W Ω :=
  let v := s.worker w
  if v.phase = .executing then
    match sendSection v.outbox with
    | some (.ok (destination, bundle, outbox)) =>
      .moved ((s.mapNetwork (·.sendTask ⟨w, destination, bundle⟩)).setWorker w
        { v with outbox })
    | some (.error e) => .raised e
    | none => .blocked
  else .blocked

/-- A message of the center that only concerns the outbox, in one of the given phases. -/
def updateOutbox (phases : List WorkerPhase) (f : Ω → Ω) (w : WorkerRank W)
    (s : SchedulerState W Ω) : Step W Ω :=
  let v := s.worker w
  if v.phase ∈ phases then .moved (s.setWorker w { v with outbox := f v.outbox }) else .blocked

/-- The funnel found no task and an empty pool; the rest of `process_message`. -/
def leaveFunnel (w : WorkerRank W) (s : SchedulerState W Ω) : Step W Ω :=
  let v := s.worker w
  if v.phase = .executing ∧ (s.outgoing w).tasksBundleQueue = [] then
    .moved (((s.notify w .AVAILABLE_STATE).mapNetwork (·.releaseParentIfPassive w)).setWorker w
      { v with phase := .receiving })
  else .blocked

/-- `TASK_RECEIVED` at a worker. -/
def receiveAck (w : WorkerRank W) (source : Rank W) (s : SchedulerState W Ω) : Step W Ω :=
  if (s.worker w).phase = .receiving ∧ ⟨source, w⟩ ∈ s.network.acks then
    match s.network.processTaskReceivedAck ⟨source, w⟩ with
    | some network => .moved { s with network := network.releaseParentIfPassive w }
    | none => .raised .unexpectedAcknowledgement
  else .blocked

def processTermination (w : WorkerRank W) (s : SchedulerState W Ω) : Step W Ω :=
  let v := s.worker w
  if v.phase = .receiving ∧ w ∈ s.terminations then
    if !(s.network.detector w).isQuiescent || !(s.outgoing w).tasksBundleQueue.isEmpty ||
        (s.outgoing w).transmitting then .raised .terminationWithWorkInProgress
    else .moved (setWorker w { v with phase := .barrier }
      { s with terminations := s.terminations.erase w })
  else .blocked

/-- Every process has entered the barrier that follows `TERMINATION`. -/
def barrierReached (s : SchedulerState W Ω) : Prop :=
  s.centerPhase ≠ .receiving ∧
    ∀ w, (s.worker w).phase = .barrier ∨ (s.worker w).phase = .reported

instance (s : SchedulerState W Ω) : Decidable s.barrierReached := by
  unfold barrierReached
  infer_instance

/-- `send_final_solution_to_center`. -/
def sendFinalSolution (w : WorkerRank W) (report : Report) (s : SchedulerState W Ω) :
    Step W Ω :=
  let v := s.worker w
  if v.phase = .barrier ∧ s.barrierReached then
    .moved (setWorker w { v with phase := .reported }
      { s with reports := (w, report) ::ₘ s.reports })
  else .blocked

/-- The receipt of `RUNNING_STATE` or `AVAILABLE_STATE` in the center's loop. -/
def consumeIntFlag (w : WorkerRank W) (tag : StateTag) (s : SchedulerState W Ω) : Step W Ω :=
  if s.centerPhase = .receiving ∧ (w, tag) ∈ s.notices then
    .moved { s with notices := s.notices.erase (w, tag) }
  else .blocked

/-- `TASK_RECEIVED` in the center's loop. -/
def centerAck (source : Rank W) (s : SchedulerState W Ω) : Step W Ω :=
  if s.centerPhase = .receiving ∧ ⟨source, W.center⟩ ∈ s.network.acks then
    match s.network.processTaskReceivedAck ⟨source, W.center⟩ with
    | some network => .moved { s with network }
    | none => .raised .unexpectedAcknowledgement
  else .blocked

/-- `notify_termination`, up to the barrier. -/
def notifyTermination (s : SchedulerState W Ω) : SchedulerState W Ω :=
  { s with terminations := Finset.univ.val, centerPhase := .barrier }

def centerBarrier (s : SchedulerState W Ω) : Step W Ω :=
  if s.centerPhase = .barrier ∧ s.barrierReached then
    .moved { s with centerPhase := .collecting W.firstWorker }
  else .blocked

/-- One message probed from `w` in `receive_solution_from`. -/
def receiveSolutionFrom (w : WorkerRank W) (tag : ProbedTag) (s : SchedulerState W Ω) :
    Step W Ω :=
  if s.centerPhase = .collecting w then
    match tag with
    | .state tag =>
      if (w, tag) ∈ s.notices then .moved { s with notices := s.notices.erase (w, tag) }
      else .blocked
    | .report report =>
      if (w, report) ∈ s.reports then
        .moved { s with
          reports := s.reports.erase (w, report)
          bestResults := match report with
            | some result => Function.update s.bestResults w result
            | none => s.bestResults
          centerPhase := nextPhase w }
      else .blocked
    | .acknowledgement =>
      if ⟨w, W.center⟩ ∈ s.network.acks then .raised .unknownTag else .blocked
    | .task bundle =>
      if ⟨w, W.center, bundle⟩ ∈ s.network.tasks then .raised .unknownTag else .blocked
  else .blocked

end Handlers

/-! ## What a step does -/

theorem processMessage_moved {w : WorkerRank W} {source : Rank W} {bundle : TaskBundle}
    (h : processMessage w source bundle s = .moved t) :
    (s.worker w).phase = .receiving ∧ ⟨source, w, bundle⟩ ∈ s.network.tasks ∧
      t = ((s.mapNetwork (·.receiveTask ⟨source, w, bundle⟩)).notify w .RUNNING_STATE).setWorker w
        { s.worker w with phase := .executing } := by
  simp only [processMessage] at h
  split at h
  · rename_i hguard
    cases h
    exact ⟨hguard.1, hguard.2, rfl⟩
  · cases h

theorem push_moved {tryOpen : Ω → Bool} {forcePush : Ω → Except Fault Ω} {w : WorkerRank W}
    (h : push tryOpen forcePush w s = .moved t) :
    (s.worker w).phase = .executing ∧ tryOpen (s.worker w).outbox = true ∧
      ∃ outbox, forcePush (s.worker w).outbox = .ok outbox ∧
        t = s.setWorker w { s.worker w with outbox } := by
  simp only [push] at h
  split at h
  · rename_i hguard
    split at h
    · rename_i outbox hpush
      cases h
      exact ⟨hguard.1, hguard.2, outbox, hpush, rfl⟩
    · cases h
  · cases h

theorem push_raised {tryOpen : Ω → Bool} {forcePush : Ω → Except Fault Ω} {w : WorkerRank W}
    {e : Fault} (h : push tryOpen forcePush w s = .raised e) :
    forcePush (s.worker w).outbox = .error e := by
  simp only [push] at h
  split at h
  · split at h
    · cases h
    · rename_i hpush
      cases h
      exact hpush
  · cases h

theorem send_moved {sendSection : Ω → Option (Except Fault (Rank W × TaskBundle × Ω))}
    {w : WorkerRank W} (h : send sendSection w s = .moved t) :
    (s.worker w).phase = .executing ∧ ∃ destination bundle outbox,
      sendSection (s.worker w).outbox = some (.ok (destination, bundle, outbox)) ∧
        t = (s.mapNetwork (·.sendTask ⟨w, destination, bundle⟩)).setWorker w
          { s.worker w with outbox } := by
  simp only [send] at h
  split at h
  · rename_i hphase
    split at h
    · rename_i destination bundle outbox hsend
      cases h
      exact ⟨hphase, destination, bundle, outbox, hsend, rfl⟩
    · cases h
    · cases h
  · cases h

theorem send_raised {sendSection : Ω → Option (Except Fault (Rank W × TaskBundle × Ω))}
    {w : WorkerRank W} {e : Fault} (h : send sendSection w s = .raised e) :
    sendSection (s.worker w).outbox = some (.error e) := by
  simp only [send] at h
  split at h
  · split at h
    · cases h
    · rename_i hsend
      cases h
      exact hsend
    · cases h
  · cases h

theorem updateOutbox_moved {phases : List WorkerPhase} {f : Ω → Ω} {w : WorkerRank W}
    (h : updateOutbox phases f w s = .moved t) :
    (s.worker w).phase ∈ phases ∧
      t = s.setWorker w { s.worker w with outbox := f (s.worker w).outbox } := by
  simp only [updateOutbox] at h
  split at h
  · rename_i hphase
    cases h
    exact ⟨hphase, rfl⟩
  · cases h

theorem leaveFunnel_moved [Outbox Ω] {w : WorkerRank W} (h : leaveFunnel w s = .moved t) :
    (s.worker w).phase = .executing ∧ (s.outgoing w).tasksBundleQueue = [] ∧
      t = ((s.notify w .AVAILABLE_STATE).mapNetwork (·.releaseParentIfPassive w)).setWorker w
        { s.worker w with phase := .receiving } := by
  simp only [leaveFunnel] at h
  split at h
  · rename_i hguard
    cases h
    exact ⟨hguard.1, hguard.2, rfl⟩
  · cases h

theorem receiveAck_moved {w : WorkerRank W} {source : Rank W}
    (h : receiveAck w source s = .moved t) :
    (s.worker w).phase = .receiving ∧ ⟨source, w⟩ ∈ s.network.acks ∧
      ∃ network, s.network.processTaskReceivedAck ⟨source, w⟩ = some network ∧
        t = { s with network := network.releaseParentIfPassive w } := by
  simp only [receiveAck] at h
  split at h
  · rename_i hguard
    split at h
    · rename_i network hack
      cases h
      exact ⟨hguard.1, hguard.2, network, hack, rfl⟩
    · cases h
  · cases h

theorem processTermination_moved [Outbox Ω] {w : WorkerRank W}
    (h : processTermination w s = .moved t) :
    (s.worker w).phase = .receiving ∧ w ∈ s.terminations ∧
      t = setWorker w { s.worker w with phase := .barrier }
        { s with terminations := s.terminations.erase w } := by
  simp only [processTermination] at h
  split at h
  · rename_i hguard
    split at h
    · cases h
    · cases h
      exact ⟨hguard.1, hguard.2, rfl⟩
  · cases h

theorem sendFinalSolution_moved {w : WorkerRank W} {report : Report}
    (h : sendFinalSolution w report s = .moved t) :
    (s.worker w).phase = .barrier ∧ s.barrierReached ∧
      t = setWorker w { s.worker w with phase := .reported }
        { s with reports := (w, report) ::ₘ s.reports } := by
  simp only [sendFinalSolution] at h
  split at h
  · rename_i hguard
    cases h
    exact ⟨hguard.1, hguard.2, rfl⟩
  · cases h

theorem consumeIntFlag_moved {w : WorkerRank W} {tag : StateTag}
    (h : consumeIntFlag w tag s = .moved t) :
    s.centerPhase = .receiving ∧ (w, tag) ∈ s.notices ∧
      t = { s with notices := s.notices.erase (w, tag) } := by
  simp only [consumeIntFlag] at h
  split at h
  · rename_i hguard
    cases h
    exact ⟨hguard.1, hguard.2, rfl⟩
  · cases h

theorem centerAck_moved {source : Rank W} (h : centerAck source s = .moved t) :
    s.centerPhase = .receiving ∧ ⟨source, W.center⟩ ∈ s.network.acks ∧
      ∃ network, s.network.processTaskReceivedAck ⟨source, W.center⟩ = some network ∧
        t = { s with network } := by
  simp only [centerAck] at h
  split at h
  · rename_i hguard
    split at h
    · rename_i network hack
      cases h
      exact ⟨hguard.1, hguard.2, network, hack, rfl⟩
    · cases h
  · cases h

theorem centerBarrier_moved (h : centerBarrier s = .moved t) :
    s.centerPhase = .barrier ∧ s.barrierReached ∧
      t = { s with centerPhase := .collecting W.firstWorker } := by
  simp only [centerBarrier] at h
  split at h
  · rename_i hguard
    cases h
    exact ⟨hguard.1, hguard.2, rfl⟩
  · cases h

theorem receiveSolutionFrom_moved {w : WorkerRank W} {tag : ProbedTag}
    (h : receiveSolutionFrom w tag s = .moved t) :
    s.centerPhase = .collecting w ∧
      ((∃ state, tag = .state state ∧ (w, state) ∈ s.notices ∧
          t = { s with notices := s.notices.erase (w, state) }) ∨
        ∃ report, tag = .report report ∧ (w, report) ∈ s.reports ∧
          t = { s with
            reports := s.reports.erase (w, report)
            bestResults := match report with
              | some result => Function.update s.bestResults w result
              | none => s.bestResults
            centerPhase := nextPhase w }) := by
  simp only [receiveSolutionFrom] at h
  split at h
  · rename_i hphase
    refine ⟨hphase, ?_⟩
    cases tag with
    | state tag =>
      simp only at h
      split at h
      · rename_i hmem
        cases h
        exact Or.inl ⟨tag, rfl, hmem, rfl⟩
      · cases h
    | report report =>
      simp only at h
      split at h
      · rename_i hmem
        cases h
        exact Or.inr ⟨report, rfl, hmem, rfl⟩
      · cases h
    | acknowledgement =>
      simp only at h
      split at h <;> cases h
    | task bundle =>
      simp only at h
      split at h <;> cases h
  · cases h

/-! ## What a worker's step leaves alone -/

/-- The center is where it was, and is owed as much as before. -/
structure SameCenter (s t : SchedulerState W Ω) : Prop where
  centerPhase : t.centerPhase = s.centerPhase
  deficit : t.deficit = s.deficit

theorem sameCenter_setWorker (s : SchedulerState W Ω) (w : WorkerRank W) (v : Worker Ω) :
    SameCenter s (s.setWorker w v) := ⟨rfl, rfl⟩

theorem sameCenter_withNetwork (s : SchedulerState W Ω) {n : TaskNetwork W} (w : WorkerRank W)
    (hn : ∃ d, n.detector = Function.update s.network.detector w d) :
    SameCenter s { s with network := n } := by
  obtain ⟨d, hn⟩ := hn
  refine ⟨rfl, ?_⟩
  rw [deficit, deficit, hn, Function.update_of_ne w.property.symm]

theorem processMessage_center {w : WorkerRank W} {source : Rank W} {bundle : TaskBundle}
    (h : processMessage w source bundle s = .moved t) : SameCenter s t := by
  obtain ⟨_, _, rfl⟩ := processMessage_moved h
  have hnet := sameCenter_withNetwork s w
    ⟨_, TaskNetwork.receiveTask_detector ⟨source, w, bundle⟩ s.network⟩
  exact ⟨hnet.centerPhase, hnet.deficit⟩

theorem push_center {tryOpen : Ω → Bool} {forcePush : Ω → Except Fault Ω} {w : WorkerRank W}
    (h : push tryOpen forcePush w s = .moved t) : SameCenter s t := by
  obtain ⟨_, _, outbox, _, rfl⟩ := push_moved h
  exact sameCenter_setWorker s w _

theorem send_center {sendSection : Ω → Option (Except Fault (Rank W × TaskBundle × Ω))}
    {w : WorkerRank W} (h : send sendSection w s = .moved t) : SameCenter s t := by
  obtain ⟨_, destination, bundle, outbox, _, rfl⟩ := send_moved h
  have hnet : SameCenter s (s.mapNetwork (·.sendTask ⟨w, destination, bundle⟩)) :=
    sameCenter_withNetwork s w ⟨_, rfl⟩
  exact ⟨hnet.centerPhase, hnet.deficit⟩

theorem updateOutbox_center {phases : List WorkerPhase} {f : Ω → Ω} {w : WorkerRank W}
    (h : updateOutbox phases f w s = .moved t) : SameCenter s t := by
  obtain ⟨_, rfl⟩ := updateOutbox_moved h
  exact sameCenter_setWorker s w _

theorem leaveFunnel_center [Outbox Ω] {w : WorkerRank W} (h : leaveFunnel w s = .moved t) :
    SameCenter s t := by
  obtain ⟨_, _, rfl⟩ := leaveFunnel_moved h
  have hnet := sameCenter_withNetwork s w
    ⟨_, TaskNetwork.releaseParentIfPassive_detector w s.network⟩
  exact ⟨hnet.centerPhase, hnet.deficit⟩

theorem receiveAck_center {w : WorkerRank W} {source : Rank W}
    (h : receiveAck w source s = .moved t) : SameCenter s t := by
  obtain ⟨_, _, network, hack, rfl⟩ := receiveAck_moved h
  cases TaskNetwork.processTaskReceivedAck_eq_some hack
  apply sameCenter_withNetwork s w
  rw [TaskNetwork.releaseParentIfPassive_detector, Function.update_idem]
  exact ⟨_, rfl⟩

theorem processTermination_center [Outbox Ω] {w : WorkerRank W}
    (h : processTermination w s = .moved t) : SameCenter s t := by
  obtain ⟨_, _, rfl⟩ := processTermination_moved h
  exact ⟨rfl, rfl⟩

theorem sendFinalSolution_center {w : WorkerRank W} {report : Report}
    (h : sendFinalSolution w report s = .moved t) : SameCenter s t := by
  obtain ⟨_, _, rfl⟩ := sendFinalSolution_moved h
  exact ⟨rfl, rfl⟩

theorem consumeIntFlag_center {w : WorkerRank W} {tag : StateTag}
    (h : consumeIntFlag w tag s = .moved t) : SameCenter s t := by
  obtain ⟨_, _, rfl⟩ := consumeIntFlag_moved h
  exact ⟨rfl, rfl⟩

end SchedulerState

end Gempba
