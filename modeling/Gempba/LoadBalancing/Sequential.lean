import Gempba.Library.Workload
import Gempba.LoadBalancing.Stealing

/-!
# The plain recursion, in pieces

An obligation is a piece of the plain recursion that is still to be done. It
is worth the calls that the plain recursion would execute for it.
-/

namespace Gempba

set_option autoImplicit false

open Transition

namespace Call

mutual
/-- The calls of the plain recursion, in its order. It skips what does not branch. -/
def sequential : Call → List Call
  | .mk creation submission children => .mk creation submission children :: sequentials children

def sequentials : List Call → List Call
  | [] => []
  | c :: cs => (if c.branchesInto then sequential c else []) ++ sequentials cs
end

mutual
/-- How often a call and those below it can make some thread move, at most. -/
def effort : Call → ℕ
  | .mk _ _ children => efforts children + 2

def efforts : List Call → ℕ
  | [] => 0
  | c :: cs => effort c + 4 + efforts cs
end

theorem sequential_eq (c : Call) : c.sequential = c :: sequentials c.children := by
  obtain ⟨creation, submission, children⟩ := c
  rw [sequential, Call.children]

theorem effort_eq (c : Call) : c.effort = efforts c.children + 2 := by
  obtain ⟨creation, submission, children⟩ := c
  rw [effort, Call.children]

end Call

/-- A call that has yet to be created, submitted, taken from the pool or received, and a call
that has yet to return. An orphan was given no node. -/
inductive Obligation where
  | uncreated (c : Call)
  | created (c : Call)
  | pooled (c : Call)
  | pushed (c : Call)
  | active (orphan : Bool)

namespace Obligation

/-- What it takes to execute a call that has started. -/
def ofCall (orphan : Bool) (c : Call) : Multiset Obligation :=
  .active orphan ::ₘ (c.children.map uncreated : Multiset Obligation)

/-- How an obligation is met: the calls executed thereby, and the obligations it leaves. -/
inductive Splits : Splitting Obligation Call
  | createDummy : Splits (.active true) 0 {.active false}
  | create (c : Call) : Splits (.uncreated c) 0 {.created c}
  | skip (c : Call) (hc : c.branchesInto = false) : Splits (.created c) 0 0
  | start (c : Call) (hc : c.branchesInto = true) : Splits (.created c) {c} (ofCall false c)
  | pool (c : Call) (hc : c.branchesInto = true) : Splits (.created c) 0 {.pooled c}
  | push (c : Call) (hc : c.branchesInto = true) : Splits (.created c) 0 {.pushed c}
  | receive (c : Call) : Splits (.pushed c) 0 {.pooled c}
  | task (c : Call) : Splits (.pooled c) {c} (ofCall true c)
  | finish (orphan : Bool) : Splits (.active orphan) 0 0

/-- The calls that the plain recursion executes for it. -/
def value : Obligation → Multiset Call
  | .uncreated c | .created c => if c.branchesInto then c.sequential else 0
  | .pooled c | .pushed c => c.sequential
  | .active _ => 0

def cost : Obligation → ℕ
  | .uncreated c => c.effort + 4
  | .created c => c.effort + 3
  | .pushed c => c.effort + 2
  | .pooled c => c.effort + 1
  | .active orphan => if orphan then 2 else 1

theorem value_uncreated (cs : List Call) :
    ((cs.map uncreated : Multiset Obligation).map value).sum = Call.sequentials cs := by
  induction cs with
  | nil => rfl
  | cons c cs ih =>
    rw [List.map_cons, ← Multiset.cons_coe, Multiset.map_cons, Multiset.sum_cons, ih,
      Call.sequentials, ← Multiset.coe_add]
    cases hc : c.branchesInto with
    | false => simp [value, hc]
    | true => simp [value, hc]

theorem value_ofCall (orphan : Bool) (c : Call) :
    {c} + ((ofCall orphan c).map value).sum = (c.sequential : Multiset Call) := by
  rw [ofCall, Multiset.map_cons, Multiset.sum_cons, value_uncreated, c.sequential_eq]
  simp [value]

theorem cost_uncreated (cs : List Call) :
    ((cs.map uncreated : Multiset Obligation).map cost).sum = Call.efforts cs := by
  induction cs with
  | nil => rfl
  | cons c cs ih =>
    rw [List.map_cons, ← Multiset.cons_coe, Multiset.map_cons, Multiset.sum_cons, ih,
      Call.efforts]
    rfl

theorem cost_ofCall (orphan : Bool) (c : Call) : ((ofCall orphan c).map cost).sum ≤ c.effort := by
  rw [ofCall, Multiset.map_cons, Multiset.sum_cons, cost_uncreated, c.effort_eq, cost]
  split <;> omega

theorem fair : Splits.Fair value := by
  intro x w ys h
  cases h with
  | createDummy => rfl
  | create c => simp [value]
  | skip c hc => simp [value, hc]
  | start c hc =>
    rw [value_ofCall]
    simp [value, hc]
  | pool c hc => simp [value, hc]
  | push c hc => simp [value, hc]
  | receive c => simp [value]
  | task c => exact (value_ofCall true c).symm
  | finish orphan => rfl

theorem shrinking : Splits.Shrinking cost := by
  intro x w ys h
  cases h with
  | createDummy => decide
  | create c => exact Nat.lt_succ_self _
  | skip c hc => exact Nat.succ_pos _
  | start c hc =>
    have hCost := cost_ofCall false c
    simp only [cost]
    omega
  | pool c hc =>
    simp only [Multiset.map_singleton, Multiset.sum_singleton, cost]
    omega
  | push c hc => exact Nat.lt_succ_self _
  | receive c => exact Nat.lt_succ_self _
  | task c =>
    have hCost := cost_ofCall true c
    simp only [cost]
    omega
  | finish orphan =>
    cases orphan with
    | false => decide
    | true => decide

end Obligation

end Gempba
