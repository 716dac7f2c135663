import Gempba.Schedulers.Coordinator
import Gempba.Schedulers.Protocol

/-!
# Agreement between the coordinator and the next-process lists

The coordinator, the outboxes of all workers and the channels between them:
notices to the center and `NEXT_PROCESS` messages are delivered in order, one
channel for each pair. A worker pushes, sends and refreshes its next process
in one step. `fed` lists the ranks a worker has sent a task to since the
center last processed their `RUNNING_STATE`; it is bookkeeping of the model.
-/

namespace Gempba.Assignment

set_option autoImplicit false

variable {W : World}

structure State (W : World) where
  coordinator : Coordinator W
  worker : WorkerRank W → Worker (SemiOutbox (WorkerRank W))
  notices : WorkerRank W → List StateTag
  nextProcess : WorkerRank W → List (List (Rank W))
  tasks : Multiset (TaskMessage W)
  fed : WorkerRank W → List (WorkerRank W)

abbrev Step (W : World) := Transition.Outcome (Fault ⊕ TreeError) (State W)

def tasksTo (q : Rank W) (tasks : Multiset (TaskMessage W)) : ℕ :=
  tasks.countP fun m => m.destination = q

theorem tasksTo_cons (q : Rank W) (m : TaskMessage W) (tasks : Multiset (TaskMessage W)) :
    tasksTo q (m ::ₘ tasks) = tasksTo q tasks + if m.destination = q then 1 else 0 :=
  Multiset.countP_cons ..

def asWorkers (ranks : List (Rank W)) : List (WorkerRank W) :=
  ranks.filterMap fun r => if h : r ≠ W.center then some ⟨r, h⟩ else none

namespace State

def pending (s : State W) (w : WorkerRank W) : List (WorkerRank W) :=
  pendingRanks (s.worker w).outbox.nextProcesses

def setWorker (w : WorkerRank W) (v : Worker (SemiOutbox (WorkerRank W))) (s : State W) :
    State W :=
  { s with worker := Function.update s.worker w v }

def setOutbox (w : WorkerRank W) (o : SemiOutbox (WorkerRank W)) (s : State W) : State W :=
  s.setWorker w { s.worker w with outbox := o }

def setInbox (w : WorkerRank W) (o : SemiOutbox (WorkerRank W)) (rest : List (List (Rank W)))
    (s : State W) : State W :=
  { s.setOutbox w o with nextProcess := Function.update s.nextProcess w rest }

def notify (w : WorkerRank W) (tag : StateTag) (s : State W) : State W :=
  { s with notices := Function.update s.notices w (s.notices w ++ [tag]) }

/-- The messages of a handler join the channels of their destinations. -/
def deliver (sent : List (Assignment W)) (s : State W) : State W :=
  { s with nextProcess := fun w =>
      s.nextProcess w ++ sent.filterMap fun m => if m.1 = w.val then some m.2 else none }

end State

def start (c : Coordinator W) (sent : List (Assignment W)) (seed : TaskBundle) : State W :=
  State.deliver sent
    { coordinator := c
      worker := fun _ => ⟨.receiving, .initial W.size⟩
      notices := fun _ => []
      nextProcess := fun _ => []
      tasks := {⟨W.center, W.first, seed⟩}
      fed := fun _ => [] }

inductive Event (W : World) where
  | feed (w : WorkerRank W) (packet : TaskPacket) (functionId : ℤ) (receive : Bool)
  | poll (w : WorkerRank W) (receive : Bool)
  | receiveNextProcess (w : WorkerRank W)
  | processMessage (w : WorkerRank W) (source : Rank W) (bundle : TaskBundle)
  | leaveFunnel (w : WorkerRank W)
  | centerState (w : WorkerRank W) (offset : Fin (W.size + 1))

/-- The poll section; whether a message has arrived by then is up to the environment. -/
def refresh (w : WorkerRank W) (receive : Bool) (s : State W) : State W :=
  let o := (s.worker w).outbox
  match receive, s.nextProcess w with
  | true, m :: rest => s.setInbox w (o.pollSection (some (asWorkers m))) rest
  | _, _ => s.setOutbox w (o.pollSection none)

/-- Push, send and refresh in one step. -/
def feed (w : WorkerRank W) (packet : TaskPacket) (functionId : ℤ) (receive : Bool)
    (s : State W) : Step W :=
  let v := s.worker w
  if v.phase = .executing ∧ v.outbox.tryOpenTransmissionChannel then
    match v.outbox.forcePush packet functionId with
    | .error e => .raised (.inl e)
    | .ok o =>
      match o.sendSection w with
      | none => .blocked
      | some (.error e) => .raised (.inl e)
      | some (.ok (destination, bundle, o)) =>
        .moved (refresh w receive { s.setOutbox w o with
          tasks := ⟨w, destination, bundle⟩ ::ₘ s.tasks
          fed := Function.update s.fed w (s.fed w ++ [destination]) })
  else .blocked

def poll (w : WorkerRank W) (receive : Bool) (s : State W) : Step W :=
  if (s.worker w).phase = .executing then .moved (refresh w receive s) else .blocked

/-- `NEXT_PROCESS` in the main loop, without a refresh. -/
def receiveNextProcess (w : WorkerRank W) (s : State W) : Step W :=
  match s.nextProcess w with
  | m :: rest =>
    if (s.worker w).phase = .receiving then
      .moved (s.setInbox w ((s.worker w).outbox.receiveNextProcess (asWorkers m)) rest)
    else .blocked
  | [] => .blocked

def processMessage (w : WorkerRank W) (source : Rank W) (bundle : TaskBundle) (s : State W) :
    Step W :=
  let m : TaskMessage W := ⟨source, w, bundle⟩
  if (s.worker w).phase = .receiving ∧ m ∈ s.tasks then
    .moved (({ s with tasks := s.tasks.erase m }.notify w .RUNNING_STATE).setWorker w
      { s.worker w with phase := .executing })
  else .blocked

def leaveFunnel (w : WorkerRank W) (s : State W) : Step W :=
  if (s.worker w).phase = .executing then
    .moved ((s.notify w .AVAILABLE_STATE).setWorker w { s.worker w with phase := .receiving })
  else .blocked

def report (w : WorkerRank W) (offset : Fin (W.size + 1)) : StateTag → Coordinator.Event W
  | .RUNNING_STATE => .running w
  | .AVAILABLE_STATE => .available w offset

/-- The oldest notice of `w` is gone; its `RUNNING_STATE` is then no longer awaited. -/
def State.settle (w : WorkerRank W) (tag : StateTag) (rest : List StateTag) (s : State W) :
    State W :=
  { s with
    notices := Function.update s.notices w rest
    fed := fun p => if tag = .RUNNING_STATE then (s.fed p).erase w else s.fed p }

/-- The center processes the oldest notice of `w`. -/
def centerState (w : WorkerRank W) (offset : Fin (W.size + 1)) (s : State W) : Step W :=
  match s.notices w with
  | [] => .blocked
  | tag :: rest =>
    match Coordinator.handle (report w offset tag) s.coordinator with
    | .error e => .raised (.inr e)
    | .ok (c, sent) => .moved ({ s.settle w tag rest with coordinator := c }.deliver sent)

def step : Event W → State W → Step W
  | .feed w packet functionId receive => feed w packet functionId receive
  | .poll w receive => poll w receive
  | .receiveNextProcess w => receiveNextProcess w
  | .processMessage w source bundle => processMessage w source bundle
  | .leaveFunnel w => leaveFunnel w
  | .centerState w offset => centerState w offset

def machine (W : World) : Transition.Machine (State W) (Event W) (Fault ⊕ TreeError) where
  initial s := ∃ c sent seed, Coordinator.start W = .ok (c, sent) ∧ s = start c sent seed
  step := step

end Gempba.Assignment
