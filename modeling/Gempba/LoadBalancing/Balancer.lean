import Mathlib.Logic.Function.Basic
import Gempba.LoadBalancing.CallTree

/-!
# Nodes on the heap of a balancer

The state that the balancer and the nodes of its process share, and the
members of `node_core_impl` that reach other nodes. From `depth` on the
fields of the state are bookkeeping of the model.
-/

namespace Gempba

set_option autoImplicit false

inductive Fate where
  | ran
  | handedToPool
  | sent (runnableId : ℤ)
  | discarded
  deriving DecidableEq, Repr

/-- A node that `get_root_level_pending_node` returned, as it was at that moment. -/
structure Pick where
  node : NodeId
  state : NodeState
  isDummy : Bool
  isRunning : Bool
  deriving DecidableEq, Repr

/-- A node handed to the pool or to another process, with its depth in the call tree and the
depths of the nodes that were pending on its thread, as they were at that moment. -/
structure Handout where
  node : NodeId
  isPending : Bool
  depth : ℕ
  pendingDepths : List ℕ
  deriving DecidableEq, Repr

/-- `roots t` is the content of the slot that `m_roots` holds for `t`. `answers` is the sequence
of what the lock, the pool and the transmission channel answer from here on. -/
structure Balancer where
  node : NodeId → NodeCore Call := fun _ => {}
  uniqueIdCounter : ℕ := 0
  roots : ThreadId → Option NodeId := fun _ => none
  schedulerWorker : Bool := false
  answers : ℕ → Bool
  threadPool : List NodeId := []
  threadRequestCount : ℕ := 0
  spawnRejectedPoolFullCount : ℕ := 0
  spawnRemoteRejectedCount : ℕ := 0
  depth : NodeId → ℕ := fun _ => 0
  fates : List (NodeId × Fate) := []
  executed : List NodeId := []
  running : List NodeId := []
  picks : List Pick := []
  handouts : List Handout := []
  defensiveReturns : ℕ := 0

theorem bind_ok {ε α β : Type} {x : Except ε α} {f : α → Except ε β} {y : β}
    (h : (x >>= f) = .ok y) : ∃ a, x = .ok a ∧ f a = .ok y := by
  cases x with
  | error e => cases h
  | ok a => exact ⟨a, rfl, h⟩

theorem map_ok {ε α β : Type} {x : Except ε α} {f : α → β} {y : β}
    (h : x.map f = .ok y) : ∃ a, x = .ok a ∧ f a = y := by
  cases x with
  | error e => cases h
  | ok a => exact ⟨a, rfl, Except.ok.inj h⟩

theorem mapError_ok {ε δ α : Type} {x : Except ε α} {f : ε → δ} {y : α}
    (h : x.mapError f = .ok y) : x = .ok y := by
  cases x with
  | error e => cases h
  | ok a => exact congrArg Except.ok (Except.ok.inj h)

namespace Balancer

def ask (b : Balancer) : Bool × Balancer :=
  (b.answers 0, { b with answers := fun i => b.answers (i + 1) })

def modify (b : Balancer) (n : NodeId) (f : NodeCore Call → NodeCore Call) : Balancer :=
  { b with node := Function.update b.node n (f (b.node n)) }

def getRoot (b : Balancer) (n : NodeId) : Option NodeId :=
  match (b.node n).root with
  | some t => b.roots t
  | none => none

/-- `get_root` of the balancer: the slot of a thread, if it has one. -/
def rootSlot (b : Balancer) (t : ThreadId) : Option ThreadId :=
  if (b.roots t).isSome then some t else none

def setRoot (b : Balancer) (t : ThreadId) (n : NodeId) : Balancer :=
  { b with roots := Function.update b.roots t (some n) }

def removeChild (b : Balancer) (p n : NodeId) : Balancer :=
  b.modify p fun m => { m with children := m.children.filter (· != n) }

/-- The part of `add_child` that `set_parent` reaches: the parent of the child is set already. -/
def linkChild (b : Balancer) (p n : NodeId) : Balancer :=
  b.modify p fun m =>
    { m with children := if n ∈ m.children then m.children else m.children ++ [n] }

def setParent (b : Balancer) (n : NodeId) (parent : Option NodeId) : Except Throw Balancer :=
  if (b.node n).isDummy ∧ parent ≠ none then .error .parentOfDummy
  else if parent = some n then .error .selfParent
  else if (b.node n).children ≠ [] ∧ parent ≠ none then .error .parentWithChildren
  else if (b.node n).parent = parent then .ok b
  else
    let b := b.modify n fun m => { m with parent := parent }
    match parent with
    | none => .ok b
    | some p =>
      let b := b.linkChild p n
      .ok (b.modify n fun m => { m with root := b.rootSlot (b.node p).threadId })

def prune (b : Balancer) (n : NodeId) : Except Throw Balancer :=
  let b := match (b.node n).parent with
    | some p => b.removeChild p n
    | none => b
  (b.modify n fun m => { m with root := none, children := [] }).setParent n none

/-- The constructor and `init`, on thread `t`. -/
def create (b : Balancer) (t : ThreadId) (parent : Option NodeId) (core : NodeCore Call) :
    Except Throw (NodeId × Balancer) :=
  let n := b.uniqueIdCounter + 1
  let b := { b with
    uniqueIdCounter := n
    node := Function.update b.node n { core with threadId := t }
    depth := Function.update b.depth n ((parent.map fun p => b.depth p + 1).getD 0) }
  match parent with
  | some p => (b.setParent n (some p)).map fun b => (n, b)
  | none =>
    let b := b.setRoot t n
    .ok (n, b.modify n fun m => { m with root := b.rootSlot t })

def createDummy (b : Balancer) (t : ThreadId) : Except Throw (NodeId × Balancer) :=
  b.create t none .dummy

def createNode (b : Balancer) (t : ThreadId) (p : NodeId) (c : Call) :
    Except Throw (NodeId × Balancer) :=
  b.create t (some p) c.core

def createNodes (b : Balancer) (t : ThreadId) (p : NodeId) :
    List Call → Except Throw (List NodeId × Balancer)
  | [] => .ok ([], b)
  | c :: cs => do
    let (n, b) ← b.createNode t p c
    let (ns, b) ← b.createNodes t p cs
    return (n :: ns, b)

/-- Created on `t` for a call, unused, not running and without a fate. -/
def isPending (b : Balancer) (t : ThreadId) (n : NodeId) : Bool :=
  (b.node n).threadId == t && !(b.node n).isDummy && (b.node n).state == .unused &&
    !decide (n ∈ b.running) && !decide (n ∈ b.fates.map Prod.fst)

def pendingDepths (b : Balancer) (t : ThreadId) : List ℕ :=
  ((List.range' 1 b.uniqueIdCounter).filter (b.isPending t)).map b.depth

/-- What `prune` leaves of the heap. -/
def pruned (b : Balancer) (n : NodeId) : Balancer :=
  { b with node := fun m =>
      if m = n then { b.node n with root := none, parent := none, children := [] }
      else if (b.node n).parent = some m then
        { b.node m with children := (b.node m).children.filter (· != n) }
      else b.node m }

variable {b : Balancer} {n m p : NodeId}

@[simp] theorem modify_node_self (f : NodeCore Call → NodeCore Call) :
    (b.modify n f).node n = f (b.node n) :=
  Function.update_self ..

theorem modify_node_of_ne (f : NodeCore Call → NodeCore Call) (h : m ≠ n) :
    (b.modify n f).node m = b.node m :=
  Function.update_of_ne h ..

theorem pruned_node_self : (b.pruned n).node n =
    { b.node n with root := none, parent := none, children := [] } :=
  if_pos rfl

theorem pruned_node_parent (hp : (b.node n).parent = some p) (h : p ≠ n) :
    (b.pruned n).node p =
      { b.node p with children := (b.node p).children.filter (· != n) } :=
  (if_neg h).trans (if_pos hp)

theorem pruned_node_of_ne (h : m ≠ n) (hp : (b.node n).parent ≠ some m) :
    (b.pruned n).node m = b.node m :=
  (if_neg h).trans (if_neg hp)

theorem setParent_none : b.setParent n none =
    .ok (b.modify n fun m => { m with parent := none }) := by
  rw [setParent, if_neg (by simp), if_neg (by simp), if_neg (by simp)]
  obtain h | h := eq_or_ne (b.node n).parent none
  · rw [if_pos h]
    have hNode : ({ b.node n with parent := none } : NodeCore Call) = b.node n := by rw [← h]
    have hUpdate : Function.update b.node n { b.node n with parent := none } = b.node := by
      rw [hNode, Function.update_eq_self]
    rw [modify, hUpdate]
  · rw [if_neg h]

theorem prune_eq (b : Balancer) (n : NodeId) : b.prune n = .ok (b.pruned n) := by
  rw [prune, setParent_none]
  congr 1
  rw [pruned]
  cases hp : (b.node n).parent with
  | none =>
    simp only [modify, Function.update_self, Function.update_idem]
    congr 1
    funext m
    obtain rfl | h := eq_or_ne m n
    · simp
    · simp [h]
  | some p =>
    simp only [modify, removeChild, Function.update_self, Function.update_idem]
    congr 1
    funext m
    obtain rfl | h := eq_or_ne m n
    · obtain rfl | h := eq_or_ne m p
      · simp
      · simp [h]
    · obtain rfl | h' := eq_or_ne m p
      · simp [h]
      · simp [h, h', h'.symm]

end Balancer

end Gempba
