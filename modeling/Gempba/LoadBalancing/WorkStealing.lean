import Mathlib.Logic.Function.Basic
import Gempba.Library.Machine
import Gempba.LoadBalancing.QuasiHorizontal

/-!
# The work stealing load balancer

Its members on the heap of nodes. `set_root` and `get_root` of this balancer
do nothing, so that no slot is ever filled. A thread is a stack of calls, and
any thread of any process may move next: `forward` and `run` end where the
user's function starts, `finish` is the rest of them.
-/

namespace Gempba

set_option autoImplicit false

open Transition

/-- The serializer of the arguments, and the deserializer of each runnable. -/
structure Codec (P : Type) where
  serialize : Call → P
  deserialize : ℤ → P → Call
  round_trip : ∀ c runnableId, c.submission = .tryRemoteSubmit runnableId →
    deserialize runnableId (serialize c) = c

/-- A call that a thread is in the middle of. `node` is the node that `run` works for, `parent`
the node under which the call creates. -/
structure ActiveCall where
  node : Option NodeId
  parent : Option NodeId
  uncreated : List Call
  created : List (NodeId × Call)

/-- The balancer of one process with its threads. `received` are the functions that runnables
gave to the pool, `pushed` the tasks that the worker of the scheduler was given. -/
structure Stealer (k : ℕ) (P : Type) where
  balancer : Balancer
  received : List Call := []
  pushed : List (ℤ × P) := []
  stack : Fin k → List ActiveCall := fun _ => []
  executed : List Call := []

namespace Balancer

def construct (b : Balancer) (t : ThreadId) (core : NodeCore Call) : Balancer :=
  { b with
    uniqueIdCounter := b.uniqueIdCounter + 1
    node := Function.update b.node (b.uniqueIdCounter + 1) { core with threadId := t } }

/-- The constructor and `init` where `set_root` does nothing. -/
def createRootless (b : Balancer) (t : ThreadId) (parent : Option NodeId) (core : NodeCore Call) :
    Except Throw (NodeId × Balancer) :=
  let n := b.uniqueIdCounter + 1
  let b := b.construct t core
  match parent with
  | some p => (b.setParent n (some p)).map fun b => (n, b)
  | none => .ok (n, b)

/-- The packet that goes to the worker of the scheduler. -/
def serialize {P : Type} (codec : Codec P) (m : NodeCore Call) : Except Throw P := do
  match ← m.serialize with
  | none => throw .defaultArguments
  | some args => return codec.serialize args

end Balancer

namespace Stealer

variable {k : ℕ} {P : Type}

def call (s : Stealer k P) (t : Fin k) (node : Option NodeId) (args : Call) : Stealer k P :=
  { s with
    stack := Function.update s.stack t (⟨node, node, args.children, []⟩ :: s.stack t)
    executed := args :: s.executed }

def invoke (s : Stealer k P) (t : Fin k) (n : NodeId) (delegated : Bool) :
    Except Throw (Stealer k P) :=
  match (s.balancer.node n).arguments with
  | none => .error .defaultArguments
  | some args => .ok (s.call t (if delegated then none else some n) args)

def prune (s : Stealer k P) (n : NodeId) : Except Throw (Stealer k P) :=
  (s.balancer.prune n).map fun b => { s with balancer := b }

def shouldBranch (s : Stealer k P) (n : NodeId) : Bool × Stealer k P :=
  let (branches, b) := s.balancer.shouldBranch n
  (branches, { s with balancer := b })

def run (s : Stealer k P) (t : Fin k) (n : NodeId) : Except Throw (Stealer k P) := do
  if (s.balancer.node n).state ≠ .unused then throw .alreadyConsumed
  let m ← (s.balancer.node n).ensureArgsInitialized
  invoke { s with balancer := s.balancer.modify n fun _ => m } t n false

def forward (s : Stealer k P) (t : Fin k) (n : NodeId) : Except Throw (Stealer k P) :=
  if (s.balancer.node n).state = .unused then
    let (branches, s) := s.shouldBranch n
    if branches then s.run t n else s.prune n
  else s.prune n

def leave (s : Stealer k P) (n : NodeId) : Except Throw (Stealer k P) :=
  prune { s with balancer :=
    s.balancer.modify n fun m => { m with state := .forwarded } } n

def delegateLocally (s : Stealer k P) (n : NodeId) : Except Throw (Stealer k P) :=
  (s.balancer.delegateLocally n).map fun b => { s with balancer := b }

def delegateRemotely (codec : Codec P) (s : Stealer k P) (n : NodeId) (runnableId : ℤ) :
    Except Throw (Stealer k P) := do
  if (s.balancer.node n).state ≠ .unused then throw .alreadyConsumed
  let m ← (s.balancer.node n).ensureArgsInitialized
  let packet ← Balancer.serialize codec m
  return { s with
    balancer := s.balancer.modify n fun _ => { m with state := .sentToAnotherProcess }
    pushed := s.pushed ++ [(runnableId, packet)] }

def delegate (codec : Codec P) (s : Stealer k P) (n : NodeId) :
    Route → Except Throw (Stealer k P)
  | .locally => s.delegateLocally n
  | .remotely runnableId => s.delegateRemotely codec n runnableId

def discard (s : Stealer k P) (n : NodeId) : Stealer k P :=
  { s with balancer := s.balancer.modify n (NodeCore.setState .discarded) }

def ask (s : Stealer k P) : Bool × Stealer k P :=
  let (answer, b) := s.balancer.ask
  (answer, { s with balancer := b })

/-- The two overloads do the same but for the pool or the channel they ask and for the
delegation. -/
def send (codec : Codec P) (s : Stealer k P) (n : NodeId) (route : Route) :
    Except Throw (Bool × Stealer k P) :=
  let (ownsLock, s) := s.ask
  if !ownsLock then .ok (false, s)
  else
    let (opened, s) := s.ask
    if !opened then .ok (false, { s with balancer := s.balancer.reject route })
    else if (s.balancer.node n).isConsumed then .error .submittedNodeConsumed
    else do
      let s ← s.prune n
      let (branches, s) := s.shouldBranch n
      if branches then return (true, ← s.delegate codec n route) else return (true, s.discard n)

def tryLocalSubmit (codec : Codec P) (s : Stealer k P) (t : Fin k) (n : NodeId) :
    Except Throw (Bool × Stealer k P) := do
  let (sent, s) ← s.send codec n .locally
  if sent then return (true, s)
  return (false, ← s.forward t n)

def tryRemoteSubmit (codec : Codec P) (s : Stealer k P) (t : Fin k) (n : NodeId)
    (runnableId : ℤ) : Except Throw (Bool × Stealer k P) := do
  if !s.balancer.schedulerWorker then throw .noSchedulerWorker
  let (sent, s) ← s.send codec n (.remotely runnableId)
  if sent then return (true, s)
  let (_, s) ← s.tryLocalSubmit codec t n
  return (false, s)

def handOver (codec : Codec P) (s : Stealer k P) (t : Fin k) (n : NodeId) :
    Submission → Except Throw (Stealer k P)
  | .forward => s.forward t n
  | .tryLocalSubmit => (s.tryLocalSubmit codec t n).map Prod.snd
  | .tryRemoteSubmit runnableId => (s.tryRemoteSubmit codec t n runnableId).map Prod.snd

/-- What a runnable does with a task from another process. -/
def accept (codec : Codec P) (s : Stealer k P) (task : ℤ × P) : Stealer k P :=
  { s with
    balancer := { s.balancer with threadRequestCount := s.balancer.threadRequestCount + 1 }
    received := s.received ++ [codec.deserialize task.1 task.2] }

/-- A call creates a dummy where it was given no node, creates and submits its children in any
order, and returns when all of them are submitted. An idle thread takes a task of the pool. -/
inductive Action (k : ℕ) where
  | createDummy (t : Fin k)
  | create (t : Fin k) (i : ℕ)
  | submit (t : Fin k) (i : ℕ)
  | finish (t : Fin k)
  | task (t : Fin k) (i : ℕ)
  | received (t : Fin k) (i : ℕ)

/-- The innermost call of a thread becomes `a`. -/
def setTop (s : Stealer k P) (t : Fin k) (a : ActiveCall) : Stealer k P :=
  { s with stack := Function.update s.stack t (a :: (s.stack t).tail) }

def createDummy (s : Stealer k P) (t : Fin k) : Outcome Throw (Stealer k P) :=
  match (s.stack t).head? with
  | none => .blocked
  | some a =>
    if a.parent.isSome then .blocked
    else .ofExcept <| (s.balancer.createRootless t none .dummy).map fun (n, b) =>
      { s with balancer := b }.setTop t { a with parent := some n }

def create (s : Stealer k P) (t : Fin k) (i : ℕ) : Outcome Throw (Stealer k P) :=
  match (s.stack t).head? with
  | none => .blocked
  | some a =>
    match a.uncreated[i]? with
    | none => .blocked
    | some c => .ofExcept <| (s.balancer.createRootless t a.parent c.core).map fun (n, b) =>
      { s with balancer := b }.setTop t
        { a with uncreated := a.uncreated.eraseIdx i, created := a.created ++ [(n, c)] }

def submit (codec : Codec P) (s : Stealer k P) (t : Fin k) (i : ℕ) :
    Outcome Throw (Stealer k P) :=
  match (s.stack t).head? with
  | none => .blocked
  | some a =>
    match a.created[i]? with
    | none => .blocked
    | some (n, c) => .ofExcept <|
      (s.setTop t { a with created := a.created.eraseIdx i }).handOver codec t n c.submission

def finish (s : Stealer k P) (t : Fin k) : Outcome Throw (Stealer k P) :=
  match (s.stack t).head? with
  | none => .blocked
  | some a =>
    if a.uncreated ≠ [] ∨ a.created ≠ [] then .blocked
    else
      let s := { s with stack := Function.update s.stack t (s.stack t).tail }
      match a.node with
      | none => .moved s
      | some n => .ofExcept (s.leave n)

def takeTask (s : Stealer k P) (t : Fin k) (i : ℕ) : Outcome Throw (Stealer k P) :=
  match s.balancer.threadPool[i]? with
  | none => .blocked
  | some n =>
    if s.stack t ≠ [] then .blocked
    else .ofExcept <| invoke { s with balancer :=
      { s.balancer with threadPool := s.balancer.threadPool.eraseIdx i } } t n true

def takeReceived (s : Stealer k P) (t : Fin k) (i : ℕ) : Outcome Throw (Stealer k P) :=
  match s.received[i]? with
  | none => .blocked
  | some c =>
    if s.stack t ≠ [] then .blocked
    else .moved (call { s with received := s.received.eraseIdx i } t none c)

def step (codec : Codec P) (s : Stealer k P) : Action k → Outcome Throw (Stealer k P)
  | .createDummy t => s.createDummy t
  | .create t i => s.create t i
  | .submit t i => s.submit codec t i
  | .finish t => s.finish t
  | .task t i => s.takeTask t i
  | .received t i => s.takeReceived t i

/-- No thread is busy, and no task waits. -/
def Quiet (s : Stealer k P) : Prop :=
  (∀ t, s.stack t = []) ∧ s.balancer.threadPool = [] ∧ s.received = [] ∧ s.pushed = []

instance (s : Stealer k P) : Decidable s.Quiet :=
  inferInstanceAs (Decidable (_ ∧ _ ∧ _ ∧ _))

/-- A thread of process `p` moves, or `p` receives a task that the worker of `q` was given. -/
inductive Event (ι : Type) (k : ℕ) where
  | act (p : ι) (action : Action k)
  | receive (p q : ι) (i : ℕ)

end Stealer

section Machine

variable {ι : Type} [DecidableEq ι] {k : ℕ} {P : Type}

/-- Every submitted call can be submitted the way it is. -/
def Call.sendable (c : Call) : Bool :=
  c.all fun d => !d.submission.isRemote || d.creation.serializable

def Stealer.receive (codec : Codec P) (s : ι → Stealer k P) (p q : ι) (i : ℕ) :
    Outcome Throw (ι → Stealer k P) :=
  match (s q).pushed[i]? with
  | none => .blocked
  | some task =>
    let s := Function.update s q { s q with pushed := (s q).pushed.eraseIdx i }
    .moved (Function.update s p ((s p).accept codec task))

/-- The root call is handed to the pool of one process. Every process has a thread at least. -/
def stealing (codec : Codec P) (k : ℕ) (root : Call) :
    Machine (ι → Stealer (k + 1) P) (Stealer.Event ι (k + 1)) Throw where
  initial s := (∀ c ∈ root.children, c.sendable = true) ∧
    ∃ (origin : ι) (answers : ι → ℕ → Bool), s = fun p =>
    { balancer := { answers := answers p, schedulerWorker := true }
      received := if p = origin then [root] else [] }
  step
    | .act p action, s => ((s p).step codec action).map (Function.update s p)
    | .receive p q i, s => Stealer.receive codec s p q i

end Machine

end Gempba
