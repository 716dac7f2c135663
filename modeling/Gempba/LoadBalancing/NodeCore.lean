import Mathlib.Data.List.Basic

/-!
# The core of a node

What a `node_core_impl` holds and what its members do to it alone. `α` is the
tuple type of the arguments. `none` for the arguments stands for the tuple
that the constructor of the class default-constructs.
-/

namespace Gempba

set_option autoImplicit false

/-- Stands for the pointer to a core. -/
abbrev NodeId := ℕ

abbrev ThreadId := ℕ

inductive NodeState where
  | unused
  | forwarded
  | pushed
  | discarded
  | retrieved
  | sentToAnotherProcess
  deriving DecidableEq, Repr

inductive InitializationType where
  | uninitialized
  | initialized
  | lazy
  | deserialized
  deriving DecidableEq, Repr

/-- The throws of the nodes and of the balancer. The last two are the model's own: the user's
function applied to default-constructed arguments, and a loop that outruns its fuel. -/
inductive Throw where
  | nullNode
  | alreadyConsumed
  | argumentsNotInitialized
  | nonWorthyNode
  | serializerNotSet
  | parentOfDummy
  | selfParent
  | parentWithChildren
  | noSecondChild
  | noSchedulerWorker
  | submittedNodeConsumed
  | pushOfConsumedNode
  | defaultArguments
  | endless
  deriving DecidableEq, Repr

/-- `root` names the thread whose slot of `m_roots` the node shares. `initializer k` is the
answer of `m_initializer` to its `k`-th call. -/
structure NodeCore (α : Type) where
  root : Option ThreadId := none
  parent : Option NodeId := none
  children : List NodeId := []
  initializer : ℕ → Option α := fun _ => none
  initializerCalls : ℕ := 0
  argsSerializer : Bool := false
  shouldBranchCached : Option Bool := none
  initializationFlag : InitializationType := .uninitialized
  arguments : Option α := none
  state : NodeState := .unused
  forwardCount : ℕ := 0
  pushCount : ℕ := 0
  threadId : ThreadId := 0
  isDummy : Bool := false

namespace NodeCore

variable {α : Type}

def dummy : NodeCore α := { isDummy := true }

def explicitly (args : α) (serializer : Bool) : NodeCore α :=
  { initializationFlag := .initialized, arguments := some args,
    initializer := fun _ => some args, argsSerializer := serializer }

def lazily (initializer : ℕ → Option α) (serializer : Bool) : NodeCore α :=
  { initializationFlag := .lazy, initializer, argsSerializer := serializer }

def isConsumed (n : NodeCore α) : Bool := n.state != .unused

def childrenCount (n : NodeCore α) : ℕ := n.children.length

def setState (s : NodeState) (n : NodeCore α) : NodeCore α :=
  match s with
  | .forwarded => { n with state := s, forwardCount := n.forwardCount + 1 }
  | .pushed => { n with state := s, pushCount := n.pushCount + 1 }
  | _ => { n with state := s }

def ensureArgsInitialized (n : NodeCore α) : Except Throw (NodeCore α) :=
  match n.initializationFlag with
  | .uninitialized => .error .argumentsNotInitialized
  | .lazy =>
    match n.initializer n.initializerCalls with
    | none => .error .nonWorthyNode
    | some args => .ok { n with
        arguments := some args
        initializationFlag := .initialized
        initializerCalls := n.initializerCalls + 1 }
  | _ => .ok n

/-- What the serializer is applied to. -/
def serialize (n : NodeCore α) : Except Throw (Option α) :=
  match n.initializationFlag with
  | .uninitialized | .lazy => .error .argumentsNotInitialized
  | _ => if n.argsSerializer then .ok n.arguments else .error .serializerNotSet

def shouldBranch (n : NodeCore α) : Bool × NodeCore α :=
  match n.shouldBranchCached with
  | some cached => (cached, n)
  | none =>
    match n.state with
    | .forwarded | .pushed | .discarded =>
      (false, { n with initializationFlag := .initialized, shouldBranchCached := some false })
    | _ =>
      match n.initializationFlag with
      | .lazy =>
        match n.initializer n.initializerCalls with
        | none => (false, { n with
            shouldBranchCached := some false
            initializationFlag := .initialized
            initializerCalls := n.initializerCalls + 1 })
        | some args => (true, { n with
            arguments := some args
            initializationFlag := .initialized
            shouldBranchCached := some true
            initializerCalls := n.initializerCalls + 1 })
      | _ => (true, { n with shouldBranchCached := some true })

def getSecondLeftmostChild (n : NodeCore α) : Except Throw NodeId :=
  match n.children with
  | _ :: second :: _ => .ok second
  | _ => .error .noSecondChild

/-- The part of a node that the tree of a thread is made of. -/
structure Links where
  root : Option ThreadId
  parent : Option NodeId
  children : List NodeId
  threadId : ThreadId

def links (n : NodeCore α) : Links := ⟨n.root, n.parent, n.children, n.threadId⟩

/-- All the rest of it. -/
def unlinked (n : NodeCore α) : NodeCore α :=
  { n with root := none, parent := none, children := [], threadId := 0 }

/-- The arguments that the node will run with, once they are asked for. -/
def offered (n : NodeCore α) : Option α :=
  match n.initializationFlag with
  | .lazy => n.initializer n.initializerCalls
  | _ => n.arguments

/-- Created with arguments or with an initializer, and not asked for anything yet. -/
structure Untouched (n : NodeCore α) : Prop where
  state : n.state = .unused
  not_dummy : n.isDummy = false
  not_asked : n.shouldBranchCached = none
  ready : n.initializationFlag = .lazy ∨
    n.initializationFlag = .initialized ∧ n.arguments.isSome

/-- What `should_branch` makes of an untouched node. -/
structure Answered (n m : NodeCore α) : Prop where
  links : m.links = n.links
  state : m.state = .unused
  not_dummy : m.isDummy = false
  cached : m.shouldBranchCached = some n.offered.isSome
  argsSerializer : m.argsSerializer = n.argsSerializer
  ready : ∀ a, n.offered = some a → m.initializationFlag = .initialized ∧ m.arguments = some a

variable {n m : NodeCore α}

theorem Untouched.shouldBranch (h : n.Untouched) :
    n.shouldBranch.1 = n.offered.isSome ∧ n.Answered n.shouldBranch.2 := by
  obtain hFlag | ⟨hFlag, hArguments⟩ := h.ready
  · cases hCall : n.initializer n.initializerCalls with
    | none =>
      have hOffered : n.offered = none := by simp [offered, hFlag, hCall]
      have hAnswer : n.shouldBranch = (false, { n with
          shouldBranchCached := some false
          initializationFlag := .initialized
          initializerCalls := n.initializerCalls + 1 }) := by
        simp [NodeCore.shouldBranch, h.not_asked, h.state, hFlag, hCall]
      rw [hAnswer, hOffered]
      refine ⟨rfl, rfl, h.state, h.not_dummy, by rw [hOffered]; rfl, rfl, ?_⟩
      intro a ha
      rw [hOffered] at ha
      cases ha
    | some args =>
      have hOffered : n.offered = some args := by simp [offered, hFlag, hCall]
      have hAnswer : n.shouldBranch = (true, { n with
          arguments := some args
          initializationFlag := .initialized
          shouldBranchCached := some true
          initializerCalls := n.initializerCalls + 1 }) := by
        simp [NodeCore.shouldBranch, h.not_asked, h.state, hFlag, hCall]
      rw [hAnswer, hOffered]
      refine ⟨rfl, rfl, h.state, h.not_dummy, by rw [hOffered]; rfl, rfl, ?_⟩
      intro a ha
      exact ⟨rfl, hOffered.symm.trans ha⟩
  · have hOffered : n.offered = n.arguments := by simp [offered, hFlag]
    have hAnswer : n.shouldBranch = (true, { n with shouldBranchCached := some true }) := by
      simp [NodeCore.shouldBranch, h.not_asked, h.state, hFlag]
    rw [hAnswer, hOffered, hArguments]
    refine ⟨rfl, rfl, h.state, h.not_dummy, by rw [hOffered, hArguments], rfl, ?_⟩
    intro a ha
    exact ⟨hFlag, hOffered.symm.trans ha⟩

theorem ensureArgsInitialized_of_initialized (h : n.initializationFlag = .initialized) :
    n.ensureArgsInitialized = .ok n := by
  rw [ensureArgsInitialized, h]

theorem serialize_of_initialized (h : n.initializationFlag = .initialized)
    (hSerializer : n.argsSerializer = true) : n.serialize = .ok n.arguments := by
  simp [serialize, h, hSerializer]

@[simp] theorem links_setState (s : NodeState) (n : NodeCore α) :
    (n.setState s).links = n.links := by
  cases s <;> rfl

@[simp] theorem state_setState (s : NodeState) (n : NodeCore α) : (n.setState s).state = s := by
  cases s <;> rfl

@[simp] theorem isDummy_setState (s : NodeState) (n : NodeCore α) :
    (n.setState s).isDummy = n.isDummy := by
  cases s <;> rfl

@[simp] theorem shouldBranchCached_setState (s : NodeState) (n : NodeCore α) :
    (n.setState s).shouldBranchCached = n.shouldBranchCached := by
  cases s <;> rfl

theorem isConsumed_eq_false (h : n.state = .unused) : n.isConsumed = false := by
  simp [isConsumed, h]

theorem Untouched.explicitly (args : α) (serializer : Bool) :
    (NodeCore.explicitly args serializer).Untouched :=
  ⟨rfl, rfl, rfl, .inr ⟨rfl, rfl⟩⟩

theorem Untouched.lazily (initializer : ℕ → Option α) (serializer : Bool) :
    (NodeCore.lazily initializer serializer).Untouched :=
  ⟨rfl, rfl, rfl, .inl rfl⟩

end NodeCore

end Gempba
