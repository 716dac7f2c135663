import Gempba.LoadBalancing.Balancer

/-!
# The quasi-horizontal load balancer

The members of the class on the heap of nodes, and the calls of a program on
top of them. `body` is what the user's function does with its arguments and
its parent node, so that the recursion of the program passes through
`forward` and `run`.
-/

namespace Gempba

set_option autoImplicit false

/-- The two overloads of `send`. -/
inductive Route where
  | locally
  | remotely (runnableId : ℤ)
  deriving DecidableEq, Repr

abbrev Body := Call → Option NodeId → Balancer → Except Throw Balancer

namespace Balancer

/-- Gives the slot of its thread to a node and cuts the node off its parent. -/
def makeRoot (b : Balancer) (n : NodeId) : Except Throw Balancer :=
  (b.setRoot (b.node n).threadId n).setParent n none

/-- The loop of `try_correct_root`. -/
def lowerRoot : ℕ → NodeId → NodeId → Balancer → Except Throw Balancer
  | 0, _, _, _ => .error .endless
  | fuel + 1, root, n, b =>
    match (b.node root).children with
    | [leftmost] => do
      let b ← b.makeRoot leftmost
      let b ← b.prune root
      if leftmost = n ∨ 2 ≤ (b.node leftmost).childrenCount then return b
      lowerRoot fuel leftmost n b
    | _ => .ok b

def tryCorrectRoot (b : Balancer) (n : NodeId) : Except Throw Balancer :=
  match b.getRoot n with
  | none => .ok b
  | some root =>
    if root = n ∧ (b.node root).childrenCount = 0 then .ok b
    else if 2 ≤ (b.node root).childrenCount then .ok b
    else lowerRoot (b.uniqueIdCounter + 1) root n b

def pruneAndCorrectRootAfterForward (b : Balancer) (n : NodeId) : Except Throw Balancer :=
  match (b.node n).parent with
  | none => b.prune n
  | some p => do
    let b ← b.prune n
    b.tryCorrectRoot p

def pruneAndFixParentRootIfNeeded (b : Balancer) (n : NodeId) : Except Throw Balancer :=
  let parent := (b.node n).parent
  let root := b.getRoot n
  if root = some n ∧ (b.node n).childrenCount = 0 then .ok b
  else do
    let b ← b.prune n
    match parent with
    | none => .error .nullNode
    | some p => b.tryCorrectRoot p

/-- The branches for two children and for more of them do the same in the source. -/
def getRootLevelPendingNode (b : Balancer) (n : NodeId) :
    Except Throw (Option NodeId × Balancer) :=
  if (b.node n).parent = none then .ok (none, b)
  else if (b.node n).parent = b.getRoot n then .ok (none, b)
  else
    match b.getRoot n with
    | none => .ok (none, b)
    | some root =>
      if (b.node root).childrenCount < 2 then
        .ok (none, { b with defensiveReturns := b.defensiveReturns + 1 })
      else do
        let second ← (b.node root).getSecondLeftmostChild
        let pick : Pick := ⟨second, (b.node second).state, (b.node second).isDummy,
          decide (second ∈ b.running)⟩
        let b ← b.prune second
        return (some second, { b with picks := pick :: b.picks })

def shouldBranch (b : Balancer) (n : NodeId) : Bool × Balancer :=
  ((b.node n).shouldBranch.1, b.modify n fun m => m.shouldBranch.2)

def settle (b : Balancer) (n : NodeId) (fate : Fate) : Balancer :=
  { b with fates := (n, fate) :: b.fates }

def discard (b : Balancer) (n : NodeId) : Balancer :=
  (b.modify n (NodeCore.setState .discarded)).settle n .discarded

def delegateLocally (b : Balancer) (n : NodeId) : Except Throw Balancer := do
  if (b.node n).state ≠ .unused then throw .alreadyConsumed
  let m ← (b.node n).ensureArgsInitialized
  let b := { b with
    threadRequestCount := b.threadRequestCount + 1
    threadPool := b.threadPool ++ [n] }
  return (b.modify n fun _ => { m with state := .pushed }).settle n .handedToPool

def delegateRemotely (b : Balancer) (n : NodeId) (runnableId : ℤ) : Except Throw Balancer := do
  if (b.node n).state ≠ .unused then throw .alreadyConsumed
  let m ← (b.node n).ensureArgsInitialized
  let _packet ← m.serialize
  return (b.modify n fun _ => { m with state := .sentToAnotherProcess }).settle n (.sent runnableId)

def handOut (b : Balancer) (n : NodeId) : Balancer :=
  let t := (b.node n).threadId
  { b with handouts := ⟨n, b.isPending t n, b.depth n, b.pendingDepths t⟩ :: b.handouts }

def delegate (b : Balancer) (n : NodeId) : Route → Except Throw Balancer
  | .locally => (b.handOut n).delegateLocally n
  | .remotely runnableId => (b.handOut n).delegateRemotely n runnableId

/-- Delegates a node that branches and discards one that does not. -/
def delegateOrDiscard (b : Balancer) (n : NodeId) (route : Route) : Except Throw Balancer :=
  let (branches, b) := b.shouldBranch n
  if branches then b.delegate n route else .ok (b.discard n)

def tryPushRootLevelNode (b : Balancer) (n : NodeId) (route : Route) :
    Except Throw (Bool × Balancer) := do
  match ← b.getRootLevelPendingNode n with
  | (none, b) => return (false, b)
  | (some top, b) =>
    if (b.node top).isConsumed then throw .pushOfConsumedNode
    let b ← b.tryCorrectRoot n
    let b ← b.delegateOrDiscard top route
    return (true, b)

/-- A pool that is full or a channel that does not open. -/
def reject (b : Balancer) : Route → Balancer
  | .locally => { b with spawnRejectedPoolFullCount := b.spawnRejectedPoolFullCount + 1 }
  | .remotely _ => { b with spawnRemoteRejectedCount := b.spawnRemoteRejectedCount + 1 }

/-- The loop of `send`. The first answer is whether the lock was taken, the second whether the
pool has a free thread or the channel opened. -/
def sendLoop (n : NodeId) (route : Route) : ℕ → Balancer → Except Throw (Bool × Balancer)
  | 0, _ => .error .endless
  | fuel + 1, b =>
    let (ownsLock, b) := b.ask
    if !ownsLock then .ok (false, b)
    else
      let (opened, b) := b.ask
      if !opened then .ok (false, b.reject route)
      else do
        let (foundAndPushed, b) ← b.tryPushRootLevelNode n route
        if foundAndPushed then sendLoop n route fuel b
        else if (b.node n).isConsumed then throw .submittedNodeConsumed
        else do
          let b ← b.pruneAndFixParentRootIfNeeded n
          let b ← b.delegateOrDiscard n route
          return (true, b)

def send (b : Balancer) (n : NodeId) (route : Route) : Except Throw (Bool × Balancer) :=
  sendLoop n route (b.uniqueIdCounter + 1) b

/-- The user's function on the arguments of a node. -/
def invoke (body : Body) (b : Balancer) (n : NodeId) (delegated : Bool) :
    Except Throw Balancer :=
  match (b.node n).arguments with
  | none => .error .defaultArguments
  | some args =>
    body args (if delegated then none else some n) { b with executed := n :: b.executed }

theorem invoke_eq {body : Body} {b : Balancer} {n : NodeId} {args : Call}
    (h : (b.node n).arguments = some args) (delegated : Bool) :
    invoke body b n delegated =
      body args (if delegated then none else some n) { b with executed := n :: b.executed } := by
  rw [invoke, h]

def run (body : Body) (b : Balancer) (n : NodeId) : Except Throw Balancer := do
  if (b.node n).state ≠ .unused then throw .alreadyConsumed
  let m ← (b.node n).ensureArgsInitialized
  let b := (b.modify n fun _ => m).settle n .ran
  let b ← invoke body { b with running := n :: b.running } n false
  return { b with running := b.running.erase n }.modify n fun m => { m with state := .forwarded }

def forward (body : Body) (b : Balancer) (n : NodeId) : Except Throw Balancer := do
  if (b.node n).state = .unused then
    let (branches, b) := b.shouldBranch n
    let b ← if branches then run body b n else .ok (b.settle n .discarded)
    b.pruneAndCorrectRootAfterForward n
  else b.pruneAndCorrectRootAfterForward n

def tryLocalSubmit (body : Body) (b : Balancer) (n : NodeId) :
    Except Throw (Bool × Balancer) := do
  let (sent, b) ← b.send n .locally
  if sent then return (true, b)
  let b ← forward body b n
  return (false, b)

def tryRemoteSubmit (body : Body) (b : Balancer) (n : NodeId) (runnableId : ℤ) :
    Except Throw (Bool × Balancer) := do
  if !b.schedulerWorker then throw .noSchedulerWorker
  let (sent, b) ← b.send n (.remotely runnableId)
  if sent then return (true, b)
  let (_, b) ← tryLocalSubmit body b n
  return (false, b)

def handOver (body : Body) (b : Balancer) (n : NodeId) : Submission → Except Throw Balancer
  | .forward => forward body b n
  | .tryLocalSubmit => (tryLocalSubmit body b n).map Prod.snd
  | .tryRemoteSubmit runnableId => (tryRemoteSubmit body b n runnableId).map Prod.snd

/-- The children of a call, in the order in which they were created. -/
def handOverAll (body : Body) : List (NodeId × Submission) → Balancer → Except Throw Balancer
  | [], b => .ok b
  | (n, submission) :: ns, b => do
    let b ← handOver body b n submission
    handOverAll body ns b

/-- The node under which a call creates its children. -/
def parentOf (b : Balancer) (t : ThreadId) : Option NodeId → Except Throw (NodeId × Balancer)
  | some p => .ok (p, b)
  | none => b.createDummy t

/-- A call of the program on thread `t`: it creates the nodes of all its children and hands
them over one by one. -/
def explore : ℕ → ThreadId → Body
  | 0, _, _, _, _ => .error .endless
  | fuel + 1, t, .mk _ _ children, parent, b => do
    if children.isEmpty then return b
    let (p, b) ← b.parentOf t parent
    let (ns, b) ← b.createNodes t p children
    handOverAll (explore fuel t) (ns.zip (children.map Call.submission)) b

end Balancer

end Gempba
