import Gempba.Library.Extension
import Gempba.Schedulers.Traffic

/-!
# The coordinator's books and the state reports of the workers

The reports of one worker reach the center in the order in which it sent them.
Beside the scheduler stands, for each worker, the queue of its reports and a
log of what the center did about it. The worker's stage, read off the center's
entry, the messages in flight and the log, moves around one cycle.
-/

namespace Gempba.Centralized

set_option autoImplicit false

open Transition

variable {W : World}

/-- What the center did about one worker: it sent a task, or processed a report. -/
inductive Entry where
  | task
  | report (tag : StateTag)
  deriving DecidableEq, Repr

/-- Tasks that are not followed by a processed `AVAILABLE_STATE`; the latest entry is first. -/
def outstanding : List Entry → ℕ
  | [] => 0
  | .task :: log => outstanding log + 1
  | .report .RUNNING_STATE :: log => outstanding log
  | .report .AVAILABLE_STATE :: _ => 0

/-- The last report processed is a `RUNNING_STATE`. -/
def reportedRunning : List Entry → Bool
  | [] => false
  | .task :: log => reportedRunning log
  | .report .RUNNING_STATE :: _ => true
  | .report .AVAILABLE_STATE :: _ => false

structure Books (W : World) where
  inFlight : WorkerRank W → List StateTag
  log : WorkerRank W → List Entry

namespace Books

/-- The books after `send_seed`. -/
def sendSeed : Books W where
  inFlight _ := []
  log := Function.update (fun _ => []) W.firstWorker [.task]

def notify (w : WorkerRank W) (tag : StateTag) (b : Books W) : Books W :=
  { b with inFlight := Function.update b.inFlight w (b.inFlight w ++ [tag]) }

/-- Only the oldest report of a worker can be received. -/
def receive (w : WorkerRank W) (tag : StateTag) (b : Books W) : Outcome Fault (Books W) :=
  if (b.inFlight w).head? = some tag then
    .moved { b with inFlight := Function.update b.inFlight w (b.inFlight w).tail }
  else .blocked

def process (w : WorkerRank W) (tag : StateTag) (b : Books W) : Books W :=
  { b with log := Function.update b.log w (.report tag :: b.log w) }

def dispatch (sent : List (WorkerRank W × Ticketed)) (b : Books W) : Books W :=
  { b with log := fun w => List.replicate ((sent.map Prod.fst).count w) .task ++ b.log w }

/-- `s` and `t` are the ends of the scheduler's step. -/
def react (e : Event W) (s t : State W) (b : Books W) : Outcome Fault (Books W) :=
  match e with
  | .processMessage w _ _ => .moved (b.notify w .RUNNING_STATE)
  | .leaveFunnel w => .moved (b.notify w .AVAILABLE_STATE)
  | .center (.state w tag) _ => (b.receive w tag).map fun b =>
      (b.process w tag).dispatch (t.dispatched.drop s.dispatched.length)
  | .center _ _ => .moved (b.dispatch (t.dispatched.drop s.dispatched.length))
  | .clearBuffer _ => .moved (b.dispatch (t.dispatched.drop s.dispatched.length))
  | .receiveSolutionFrom w (.state tag) => b.receive w tag
  | _ => .moved b

theorem receive_moved {w : WorkerRank W} {tag : StateTag} {b c : Books W}
    (h : b.receive w tag = .moved c) : ∃ rest, b.inFlight w = tag :: rest ∧
      c = { b with inFlight := Function.update b.inFlight w rest } := by
  simp only [receive] at h
  split at h
  · rename_i hhead
    cases h
    obtain ⟨rest, hrest⟩ := List.head?_eq_some_iff.mp hhead
    exact ⟨rest, hrest, by rw [hrest, List.tail_cons]⟩
  · cases h

end Books

/-- The scheduler with its books, started together. -/
def bookkept (W : World) : Machine (State W × Books W) (Event W × Unit) Fault :=
  (machine W).extend (fun _ b => b = Books.sendSeed) fun _ => Books.react

/-! ## The stage of a worker -/

def toWorker (w : WorkerRank W) (tasks : Multiset (TaskMessage W)) : ℕ :=
  tasks.countP fun m => m.destination = w.val

theorem toWorker_cons {w : WorkerRank W} {m : TaskMessage W} (hm : m.destination = w)
    (tasks : Multiset (TaskMessage W)) : toWorker w (m ::ₘ tasks) = toWorker w tasks + 1 :=
  Multiset.countP_cons_of_pos _ hm

theorem toWorker_cons_of_ne {w : WorkerRank W} {m : TaskMessage W} (hm : m.destination ≠ w)
    (tasks : Multiset (TaskMessage W)) : toWorker w (m ::ₘ tasks) = toWorker w tasks :=
  Multiset.countP_cons_of_neg _ hm

/-- What the center holds of a worker, and what is on its way. -/
structure View where
  assigned : Prop
  running : Bool
  tasks : ℕ
  executing : Prop
  reports : List StateTag

def view (s : State W) (b : Books W) (w : WorkerRank W) : View where
  assigned := s.processState w ≠ .AVAILABLE_STATE
  running := reportedRunning (b.log w)
  tasks := toWorker w s.network.tasks
  executing := (s.worker w).phase = .executing
  reports := b.inFlight w

/-- The cycle of a worker; the receipts by the center lag behind. -/
inductive Stage (v : View) : Prop where
  | idle (assigned : ¬ v.assigned) (running : v.running = false) (tasks : v.tasks = 0)
      (executing : ¬ v.executing) (reports : v.reports = [])
  | sent (assigned : v.assigned) (running : v.running = false) (tasks : v.tasks = 1)
      (executing : ¬ v.executing) (reports : v.reports = [])
  | accepted (assigned : v.assigned) (running : v.running = false) (tasks : v.tasks = 0)
      (executing : v.executing) (reports : v.reports = [.RUNNING_STATE])
  | ended (assigned : v.assigned) (running : v.running = false) (tasks : v.tasks = 0)
      (executing : ¬ v.executing) (reports : v.reports = [.RUNNING_STATE, .AVAILABLE_STATE])
  | running (assigned : v.assigned) (running : v.running = true) (tasks : v.tasks = 0)
      (executing : v.executing) (reports : v.reports = [])
  | finished (assigned : v.assigned) (running : v.running = true) (tasks : v.tasks = 0)
      (executing : ¬ v.executing) (reports : v.reports = [.AVAILABLE_STATE])

namespace Stage

variable {v v' : View}

theorem congr (h : Stage v) (hassigned : v'.assigned ↔ v.assigned)
    (hrunning : v'.running = v.running) (htasks : v'.tasks = v.tasks)
    (hexecuting : v'.executing ↔ v.executing) (hreports : v'.reports = v.reports) : Stage v' := by
  cases v
  cases v'
  obtain rfl := propext hassigned
  obtain rfl := propext hexecuting
  cases hrunning
  cases htasks
  cases hreports
  exact h

theorem dispatch (h : Stage v) (hv : ¬ v.assigned) :
    Stage { v with assigned := True, tasks := v.tasks + 1 } := by
  cases h with
  | idle _ hrunning htasks hexecuting hreports =>
    exact .sent trivial hrunning (congrArg (· + 1) htasks) hexecuting hreports
  | sent hassigned | accepted hassigned | ended hassigned | running hassigned
  | finished hassigned => exact absurd hassigned hv

theorem accept (h : Stage v) (hv : ¬ v.executing) {tasks : ℕ} (htask : v.tasks = tasks + 1) :
    Stage { v with
      tasks
      executing := True
      reports := v.reports ++ [.RUNNING_STATE] } := by
  cases h with
  | sent hassigned hrunning htasks _ hreports =>
    refine .accepted hassigned hrunning ?_ trivial ?_
    · exact Nat.succ_injective (htask.symm.trans htasks)
    · exact congrArg (· ++ [StateTag.RUNNING_STATE]) hreports
  | idle _ _ htasks | ended _ _ htasks | finished _ _ htasks => omega
  | accepted _ _ _ hexecuting | running _ _ _ hexecuting => exact absurd hexecuting hv

theorem leave (h : Stage v) (hv : v.executing) :
    Stage { v with executing := False, reports := v.reports ++ [.AVAILABLE_STATE] } := by
  cases h with
  | accepted hassigned hrunning htasks _ hreports =>
    exact .ended hassigned hrunning htasks id
      (congrArg (· ++ [StateTag.AVAILABLE_STATE]) hreports)
  | running hassigned hrunning htasks _ hreports =>
    exact .finished hassigned hrunning htasks id
      (congrArg (· ++ [StateTag.AVAILABLE_STATE]) hreports)
  | idle _ _ _ hexecuting | sent _ _ _ hexecuting | ended _ _ _ hexecuting
  | finished _ _ _ hexecuting => exact absurd hv hexecuting

theorem processRunning (h : Stage v) {rest : List StateTag}
    (hreports : v.reports = .RUNNING_STATE :: rest) :
    v.assigned ∧ v.running = false ∧
      Stage { v with assigned := True, running := true, reports := rest } := by
  cases h with
  | accepted hassigned hrunning htasks hexecuting htags =>
    cases htags.symm.trans hreports
    exact ⟨hassigned, hrunning, .running trivial rfl htasks hexecuting rfl⟩
  | ended hassigned hrunning htasks hexecuting htags =>
    cases htags.symm.trans hreports
    exact ⟨hassigned, hrunning, .finished trivial rfl htasks hexecuting rfl⟩
  | idle _ _ _ _ htags | sent _ _ _ _ htags | running _ _ _ _ htags
  | finished _ _ _ _ htags => cases htags.symm.trans hreports

theorem processAvailable (h : Stage v) {rest : List StateTag}
    (hreports : v.reports = .AVAILABLE_STATE :: rest) :
    v.assigned ∧ v.running = true ∧
      Stage { v with assigned := False, running := false, reports := rest } := by
  cases h with
  | finished hassigned hrunning htasks hexecuting htags =>
    cases htags.symm.trans hreports
    exact ⟨hassigned, hrunning, .idle id rfl htasks hexecuting rfl⟩
  | idle _ _ _ _ htags | sent _ _ _ _ htags | accepted _ _ _ _ htags | ended _ _ _ _ htags
  | running _ _ _ _ htags => cases htags.symm.trans hreports

end Stage

end Gempba.Centralized
