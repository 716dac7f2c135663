import Gempba.Library.Machine
import Gempba.NodeManager

/-!
# The exchange of scores

The score side of both schedulers: the node manager and the copy of the global
score of every worker, its funnel's loop with `update_score` in it, the pool
threads that offer results, the proposals to the center and its broadcasts.
`update_score` reads the local score once and acts on that reading, while the
pool goes on. The logs of the offers and of the reports are bookkeeping of the
model.
-/

namespace Gempba

set_option autoImplicit false

/-- The place of a worker's funnel thread. `outside` is the receive loop, `loop` the head of the
funnel's loop; an update is `final` when it comes after the loop. -/
inductive FunnelPc where
  | outside
  | loop
  | comparing (final : Bool)
  | invalidating (final : Bool)
  | proposing (final : Bool) (localScore : Score)
  | polled
  | left
  deriving DecidableEq, Repr

namespace FunnelPc

def updated (final : Bool) : FunnelPc := if final then .left else .polled

def exited : FunnelPc → Bool
  | .outside | .left | .comparing true | .invalidating true | .proposing true _ => true
  | _ => false

def settled : FunnelPc → Bool
  | .outside | .left | .invalidating true => true
  | _ => false

end FunnelPc

structure ScoreWorker where
  manager : NodeManager
  globalScore : Score
  poolTasks : ℕ
  pc : FunnelPc
  updates : List Score
  updatesReceived : ℕ
  deriving DecidableEq, Repr

namespace ScoreWorker

inductive Event where
  | receiveScore
  | submit
  | finishTask
  | offer (score : Score) (packet : TaskPacket)
  | poll (received : Bool)
  | compare
  | invalidate
  | continueLoop
  | finishLoop
  deriving DecidableEq

def receiveScoreFromCenter (v : ScoreWorker) : Option ScoreWorker :=
  match v.updates with
  | [] => none
  | u :: us =>
    some { v with globalScore := u, updates := us, updatesReceived := v.updatesReceived + 1 }

def submit (v : ScoreWorker) : Option ScoreWorker :=
  if v.poolTasks ≠ 0 then some { v with poolTasks := v.poolTasks + 1 } else none

def finishTask (v : ScoreWorker) : Option ScoreWorker :=
  if v.poolTasks ≠ 0 then some { v with poolTasks := v.poolTasks - 1 } else none

/-- A task of the pool calls `try_update_result`. -/
def offer (score : Score) (packet : TaskPacket) (v : ScoreWorker) : Option ScoreWorker :=
  if v.poolTasks ≠ 0 ∧ packet ≠ [] then
    some { v with manager := (v.manager.tryUpdateResult score packet).2 }
  else none

/-- `maybe_receive_score_from_center`, and the start of `update_score`. -/
def poll (received : Bool) (v : ScoreWorker) : Option ScoreWorker :=
  if v.pc = .loop then
    (if received then v.receiveScoreFromCenter else some v).map
      fun v => { v with pc := .comparing false }
  else none

/-- `update_score` reads the local score and chooses what to do. -/
def compare (goal : Goal) (v : ScoreWorker) : Option ScoreWorker :=
  match v.pc with
  | .comparing final =>
    some { v with
      pc :=
        if shouldUpdate goal v.manager.score v.globalScore then .invalidating final
        else if shouldUpdate goal v.globalScore v.manager.score then
          .proposing final v.manager.score
        else .updated final }
  | _ => none

def invalidate (v : ScoreWorker) : Option ScoreWorker :=
  match v.pc with
  | .invalidating final =>
    some { v with
      manager := (v.manager.tryUpdateScoreAndInvalidateResult v.globalScore).2
      pc := .updated final }
  | _ => none

def continueLoop (v : ScoreWorker) : Option ScoreWorker :=
  if v.pc = .polled then some { v with pc := .loop } else none

/-- `is_done` holds and the loop ends; only one of the schedulers then updates once more. -/
def finishLoop (finalUpdate : Bool) (v : ScoreWorker) : Option ScoreWorker :=
  if v.pc = .polled ∧ v.poolTasks = 0 then
    some { v with pc := if finalUpdate then .comparing true else .left }
  else none

def step (goal : Goal) (finalUpdate : Bool) : Event → ScoreWorker → Option ScoreWorker
  | .receiveScore => receiveScoreFromCenter
  | .submit => submit
  | .finishTask => finishTask
  | .offer score packet => offer score packet
  | .poll received => poll received
  | .compare => compare goal
  | .invalidate => invalidate
  | .continueLoop => continueLoop
  | .finishLoop => finishLoop finalUpdate

/-- The score updates received in `drain_center_messages`. -/
def drain (sent : ℕ) (v : ScoreWorker) : Transition.Outcome Fault ScoreWorker :=
  let pending := sent - v.updatesReceived
  if pending ≤ v.updates.length then
    if v.updatesReceived + pending = sent then
      .moved { v with
        globalScore := (v.updates.take pending).getLast?.getD v.globalScore
        updates := v.updates.drop pending
        updatesReceived := sent }
    else .raised .tooManyCenterMessages
  else .blocked

end ScoreWorker

structure Scores (W : World) where
  worker : WorkerRank W → ScoreWorker
  globalScore : Score
  /-- A proposal that the center has received and not yet compared. -/
  handling : Option Score
  updatesSent : ℕ
  offers : List (WorkerRank W × Result)
  reported : WorkerRank W → Option Report

namespace Scores

variable {W : World}

abbrev Step (W : World) := Transition.Outcome Fault (Scores W)

def start (W : World) (model : DataModel) (goal : Goal) (kind : ScoreType) : Option (Scores W) := do
  let globalScore ← getDefaultScore model goal kind
  let manager ← NodeManager.make.setGoal model goal kind
  pure {
    worker _ := ⟨manager, globalScore, 0, .outside, [], 0⟩
    globalScore
    handling := none
    updatesSent := 0
    offers := []
    reported _ := none }

def setWorker (w : WorkerRank W) (v : ScoreWorker) (s : Scores W) : Scores W :=
  { s with worker := Function.update s.worker w v }

def workerStep (goal : Goal) (finalUpdate : Bool) (w : WorkerRank W) (e : ScoreWorker.Event)
    (s : Scores W) : Step W :=
  match (s.worker w).step goal finalUpdate e with
  | some v =>
    .moved { s.setWorker w v with
      offers := match e with
        | .offer score packet => s.offers ++ [(w, ⟨score, packet⟩)]
        | _ => s.offers }
  | none => .blocked

/-- `consume_score_flag`: the receipt ends the worker's `MPI_Ssend`. -/
def consumeScoreFlag (w : WorkerRank W) (s : Scores W) : Step W :=
  match (s.worker w).pc, s.handling with
  | .proposing final localScore, none =>
    .moved { s.setWorker w { s.worker w with pc := .updated final } with
      handling := some localScore }
  | _, _ => .blocked

def maybeBroadcastGlobalScore (goal : Goal) (s : Scores W) : Step W :=
  match s.handling with
  | some score =>
    if shouldUpdate goal s.globalScore score then
      .moved { s with
        worker := fun w => { s.worker w with updates := (s.worker w).updates ++ [score] }
        globalScore := score
        handling := none
        updatesSent := s.updatesSent + 1 }
    else .moved { s with handling := none }
  | none => .blocked

/-- `process_message` submits the task to the pool and starts the funnel. -/
def enterFunnel (w : WorkerRank W) (s : Scores W) : Step W :=
  if (s.worker w).pc = .outside then
    .moved (s.setWorker w { s.worker w with pc := .loop, poolTasks := 1 })
  else .blocked

def leaveFunnel (w : WorkerRank W) (s : Scores W) : Step W :=
  if (s.worker w).pc = .left then .moved (s.setWorker w { s.worker w with pc := .outside })
  else .blocked

def drain (w : WorkerRank W) (s : Scores W) : Step W :=
  ((s.worker w).drain s.updatesSent).map fun v => s.setWorker w v

def sendFinalSolution (w : WorkerRank W) (report : Report) (s : Scores W) : Step W :=
  if report = (s.worker w).manager.finalSolution then
    .moved { s with reported := Function.update s.reported w (some report) }
  else .blocked

end Scores

end Gempba
