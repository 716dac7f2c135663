import Gempba.Telemetry.Frames
import Mathlib.Logic.Function.Basic

/-!
# The clock of a rank's scheduler

Events come with their time in microseconds. Times accrue lazily: an event that
changes what is running adds the time since the last such event to the totals,
and a query adds the open interval.
-/

namespace Gempba.Telemetry

set_option autoImplicit false

inductive Phase where
  | NONE | WAITING | RUNNING
  deriving DecidableEq, Repr

/-- Marks a rank without an assignment. -/
def UNASSIGNED : UInt64 := 0xFFFFFFFFFFFFFFFF

structure SchedulerClock where
  inRun : Bool
  runStart : UInt64
  since : UInt64
  phase : Phase
  taskSeen : Bool
  running : UInt64
  waiting : UInt64
  firstTaskMs : UInt64
  lastTaskMs : UInt64
  assignedAt : UInt32 → UInt64
  assignLatencyTotal : UInt64
  assignLatencyMax : UInt64
  assignCount : UInt64
  availableRanks : UInt64
  queueEmpty : Bool
  availableQueueEmpty : UInt64
  coordinatorFull : Bool
  coordinatorFullTime : UInt64
  lastScoreImprovementMs : UInt64

namespace SchedulerClock

def initial : SchedulerClock where
  inRun := false
  runStart := 0
  since := 0
  phase := .NONE
  taskSeen := false
  running := 0
  waiting := 0
  firstTaskMs := 0
  lastTaskMs := 0
  assignedAt _ := UNASSIGNED
  assignLatencyTotal := 0
  assignLatencyMax := 0
  assignCount := 0
  availableRanks := 0
  queueEmpty := true
  availableQueueEmpty := 0
  coordinatorFull := false
  coordinatorFullTime := 0
  lastScoreImprovementMs := 0

def accrue (now : UInt64) (c : SchedulerClock) : SchedulerClock :=
  let elapsed := now - c.since
  { c with
    running := if c.phase = .RUNNING then c.running + elapsed else c.running
    waiting := if c.phase = .WAITING then c.waiting + elapsed else c.waiting
    availableQueueEmpty :=
      if c.queueEmpty then c.availableQueueEmpty + c.availableRanks * elapsed
      else c.availableQueueEmpty
    coordinatorFullTime :=
      if c.coordinatorFull then c.coordinatorFullTime + elapsed else c.coordinatorFullTime
    since := now }

def onRunStart (now : UInt64) (c : SchedulerClock) : SchedulerClock :=
  { c with inRun := true, runStart := now, since := now }

def onRunEnd (now : UInt64) (c : SchedulerClock) : SchedulerClock :=
  if c.inRun then { c.accrue now with phase := .NONE, inRun := false } else c

def onWorkerWaiting (now : UInt64) (c : SchedulerClock) : SchedulerClock :=
  if c.inRun then
    { c.accrue now with
      lastTaskMs := if c.phase = .RUNNING then (now - c.runStart) / 1000 else c.lastTaskMs
      phase := .WAITING }
  else c

def onWorkerRunning (now : UInt64) (c : SchedulerClock) : SchedulerClock :=
  if c.inRun then
    { c.accrue now with
      taskSeen := true
      firstTaskMs := if c.taskSeen then c.firstTaskMs else (now - c.runStart) / 1000
      phase := .RUNNING }
  else c

def onAssignment (rank : UInt32) (now : UInt64) (c : SchedulerClock) : SchedulerClock :=
  if rank.toNat < MAX_WORKERS then { c with assignedAt := Function.update c.assignedAt rank now }
  else c

def onAssignmentAccepted (rank : UInt32) (now : UInt64) (c : SchedulerClock) : SchedulerClock :=
  if MAX_WORKERS ≤ rank.toNat ∨ c.assignedAt rank = UNASSIGNED then c
  else
    let latency := now - c.assignedAt rank
    { c with
      assignedAt := Function.update c.assignedAt rank UNASSIGNED
      assignLatencyTotal := c.assignLatencyTotal + latency
      assignLatencyMax := max c.assignLatencyMax latency
      assignCount := c.assignCount + 1 }

def onCoordinatorQueue (availableRanks : UInt32) (queueEmpty : Bool) (now : UInt64)
    (c : SchedulerClock) : SchedulerClock :=
  if c.inRun then
    { c.accrue now with availableRanks := availableRanks.toUInt64, queueEmpty := queueEmpty }
  else c

def onCoordinatorFull (now : UInt64) (c : SchedulerClock) : SchedulerClock :=
  if c.inRun = false ∨ c.coordinatorFull then c
  else { c.accrue now with coordinatorFull := true }

def onGlobalScoreImproved (now : UInt64) (c : SchedulerClock) : SchedulerClock :=
  if c.inRun then { c with lastScoreImprovementMs := (now - c.runStart) / 1000 } else c

def onCoordinatorFree (now : UInt64) (c : SchedulerClock) : SchedulerClock :=
  if c.inRun = false ∨ c.coordinatorFull = false then c
  else { c.accrue now with coordinatorFull := false }

def fill (now : UInt64) (c : SchedulerClock) (frame : WorkerFrame) : WorkerFrame :=
  let opened := if c.inRun then now - c.since else 0
  { frame with
    schedRunningMicroseconds := c.running + if c.phase = .RUNNING then opened else 0
    schedWaitingMicroseconds := c.waiting + if c.phase = .WAITING then opened else 0
    firstTaskMs := c.firstTaskMs
    lastTaskMs := c.lastTaskMs
    assignLatencyMicrosecondsTotal := c.assignLatencyTotal
    assignCount := c.assignCount
    assignLatencyMicrosecondsMax := c.assignLatencyMax
    availableMicrosecondsQueueEmpty :=
      c.availableQueueEmpty + if c.queueEmpty then c.availableRanks * opened else 0
    coordinatorFullMicroseconds := c.coordinatorFullTime + if c.coordinatorFull then opened else 0
    lastScoreImprovementMs := c.lastScoreImprovementMs }

end SchedulerClock

inductive ClockEvent where
  | runStart
  | runEnd
  | workerWaiting
  | workerRunning
  | assignment (rank : UInt32)
  | assignmentAccepted (rank : UInt32)
  | coordinatorQueue (availableRanks : UInt32) (queueEmpty : Bool)
  | coordinatorFull
  | globalScoreImproved
  | coordinatorFree
  deriving DecidableEq, Repr

namespace SchedulerClock

def record (now : UInt64) : ClockEvent → SchedulerClock → SchedulerClock
  | .runStart => onRunStart now
  | .runEnd => onRunEnd now
  | .workerWaiting => onWorkerWaiting now
  | .workerRunning => onWorkerRunning now
  | .assignment rank => onAssignment rank now
  | .assignmentAccepted rank => onAssignmentAccepted rank now
  | .coordinatorQueue availableRanks queueEmpty => onCoordinatorQueue availableRanks queueEmpty now
  | .coordinatorFull => onCoordinatorFull now
  | .globalScoreImproved => onGlobalScoreImproved now
  | .coordinatorFree => onCoordinatorFree now

/-- The clock after the events of a history, of which the first is the newest. -/
def after (history : List (ClockEvent × UInt64)) : SchedulerClock :=
  history.foldr (fun e c => c.record e.2 e.1) initial

end SchedulerClock

end Gempba.Telemetry
