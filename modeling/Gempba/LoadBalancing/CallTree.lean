import Mathlib.Data.Int.Notation
import Gempba.LoadBalancing.NodeCore

/-!
# Trees of calls

A deterministic recursive program, seen as the tree of its calls: how the
caller creates the node of a call, how it hands the node over to the
balancer, and the calls that the call branches into.
-/

namespace Gempba

set_option autoImplicit false

/-- `create_explicit_node` or `create_lazy_node`, with the argument serializer or without it.
The initializer of a lazy node that is not worthy has no arguments to give. -/
inductive Creation where
  | createExplicitNode (serializable : Bool)
  | createLazyNode (serializable worthy : Bool)
  deriving DecidableEq, Repr

def Creation.serializable : Creation → Bool
  | .createExplicitNode s => s
  | .createLazyNode s _ => s

inductive Submission where
  | forward
  | tryLocalSubmit
  | tryRemoteSubmit (runnableId : ℤ)
  deriving DecidableEq, Repr

def Submission.isRemote : Submission → Bool
  | .tryRemoteSubmit _ => true
  | _ => false

inductive Call where
  | mk (creation : Creation) (submission : Submission) (children : List Call)

namespace Call

def creation : Call → Creation
  | .mk creation _ _ => creation

def submission : Call → Submission
  | .mk _ submission _ => submission

def children : Call → List Call
  | .mk _ _ children => children

/-- The core that the caller constructs for the call. -/
def core (c : Call) : NodeCore Call :=
  match c.creation with
  | .createExplicitNode serializable => .explicitly c serializable
  | .createLazyNode serializable worthy =>
    .lazily (fun _ => if worthy then some c else none) serializable

mutual
def depth : Call → ℕ
  | .mk _ _ children => depths children + 1

def depths : List Call → ℕ
  | [] => 0
  | c :: cs => max (depth c) (depths cs)
end

mutual
/-- Every call of the tree meets `p`. -/
def all (p : Call → Bool) : Call → Bool
  | .mk creation submission children => p (.mk creation submission children) && allOf p children

def allOf (p : Call → Bool) : List Call → Bool
  | [] => true
  | c :: cs => all p c && allOf p cs
end

theorem depth_le_depths {c : Call} {cs : List Call} (h : c ∈ cs) : c.depth ≤ depths cs := by
  induction cs with
  | nil => cases h
  | cons d cs ih =>
    rw [depths]
    obtain rfl | h := List.mem_cons.mp h
    · exact Nat.le_max_left _ _
    · exact Nat.le_trans (ih h) (Nat.le_max_right _ _)

theorem depth_child {c d : Call} (h : d ∈ c.children) : d.depth + 1 ≤ c.depth := by
  obtain ⟨_, _, cs⟩ := c
  rw [depth]
  exact Nat.succ_le_succ (depth_le_depths h)

theorem all_of_mem {p : Call → Bool} {c : Call} {cs : List Call} (h : allOf p cs = true)
    (hc : c ∈ cs) : c.all p = true := by
  induction cs with
  | nil => cases hc
  | cons d cs ih =>
    rw [allOf, Bool.and_eq_true] at h
    obtain rfl | hc := List.mem_cons.mp hc
    · exact h.1
    · exact ih h.2 hc

theorem all_child {p : Call → Bool} {c d : Call} (h : c.all p = true) (hd : d ∈ c.children) :
    d.all p = true := by
  obtain ⟨_, _, cs⟩ := c
  rw [all, Bool.and_eq_true] at h
  exact all_of_mem h.2 hd

theorem all_self {p : Call → Bool} {c : Call} (h : c.all p = true) : p c = true := by
  obtain ⟨_, _, cs⟩ := c
  rw [all, Bool.and_eq_true] at h
  exact h.1

/-- Neither the call nor any below it is submitted remotely. -/
def submittedLocally (c : Call) : Bool := c.all fun d => !d.submission.isRemote

def serializable (c : Call) : Bool := c.all fun d => d.creation.serializable

/-- The calls that a balancer can take: a remote submission needs the worker of a scheduler and
the argument serializer of whichever node it sends. The root call has no node. -/
def Fits (worker : Bool) (c : Call) : Prop :=
  (∀ d ∈ c.children, d.submittedLocally = true) ∨
    worker = true ∧ ∀ d ∈ c.children, d.serializable = true

instance (worker : Bool) (c : Call) : Decidable (c.Fits worker) :=
  inferInstanceAs (Decidable (_ ∨ _ ∧ _))

/-- Every call submits its first child and forwards the others. -/
def submitsFirst (c : Call) : Bool :=
  c.all fun d => match d.children with
    | [] => true
    | first :: others => first.submission != .forward && others.all (·.submission == .forward)

/-- Every call branches into no child or into two and more. -/
def branches (c : Call) : Bool := c.all fun d => d.children.length != 1

theorem untouched_core (c : Call) : c.core.Untouched := by
  rw [core]
  cases c.creation with
  | createExplicitNode serializable => exact .explicitly c serializable
  | createLazyNode serializable worthy => exact .lazily _ serializable

theorem offered_core {c d : Call} (h : c.core.offered = some d) : d = c := by
  rw [core] at h
  cases hCreation : c.creation with
  | createExplicitNode serializable =>
    rw [hCreation] at h
    exact (Option.some.inj h).symm
  | createLazyNode serializable worthy =>
    rw [hCreation] at h
    cases worthy with
    | false => cases h
    | true => exact (Option.some.inj h).symm

theorem links_core (c : Call) : c.core.links = ⟨none, none, [], 0⟩ := by
  rw [core]
  cases c.creation <;> rfl

theorem argsSerializer_core (c : Call) : c.core.argsSerializer = c.creation.serializable := by
  rw [core]
  cases c.creation <;> rfl

end Call

end Gempba
