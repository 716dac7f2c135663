import Mathlib.Data.Finset.Max
import Mathlib.Data.Fintype.Basic
import Mathlib.Data.Nat.Notation

/-!
# Barriers that all parties pass

A party in a barrier leaves it once every party has arrived at the barrier of
that number. The parties are never more than one barrier apart, and a barrier
that one party has passed is open to the others.
-/

namespace Barriers

set_option autoImplicit false

/-- How many barriers a party has passed, and whether it is in the next one. -/
structure Gate where
  passed : ℕ
  inside : Bool
  deriving DecidableEq, Repr

namespace Gate

def arrived (g : Gate) : ℕ := g.passed + g.inside.toNat

def leave (g : Gate) : Gate := ⟨g.passed + 1, false⟩

theorem arrived_leave {g : Gate} (h : g.inside = true) : g.leave.arrived = g.arrived := by
  rw [arrived, arrived, h]
  rfl

theorem arrived_of_inside {g : Gate} (h : g.inside = true) : g.arrived = g.passed + 1 := by
  rw [arrived, h]
  rfl

end Gate

variable {ρ : Type} {gate : ρ → Gate}

/-- No party has passed a barrier at which another has not arrived. -/
def Together (gate : ρ → Gate) : Prop := ∀ r r', (gate r).passed ≤ (gate r').arrived

/-- Every party has arrived at the barrier in which the party is. -/
def IsOpen (gate : ρ → Gate) (r : ρ) : Prop :=
  (gate r).inside = true ∧ ∀ r', (gate r).passed < (gate r').arrived

instance [Fintype ρ] (gate : ρ → Gate) (r : ρ) : Decidable (IsOpen gate r) := by
  unfold IsOpen
  infer_instance

/-- A party that has passed the barrier opens it. -/
theorem Together.isOpen_of_lt (h : Together gate) {r r' : ρ} (hr : (gate r).inside = true)
    (hlt : (gate r).passed < (gate r').passed) : IsOpen gate r :=
  ⟨hr, fun r'' => Nat.lt_of_lt_of_le hlt (h r' r'')⟩

/-- Parties that are all in barriers are not stuck. -/
theorem exists_isOpen [Fintype ρ] [Nonempty ρ] (h : ∀ r, (gate r).inside = true) :
    ∃ r, IsOpen gate r := by
  obtain ⟨r, _, hr⟩ :=
    Finset.exists_min_image Finset.univ (fun r => (gate r).passed) Finset.univ_nonempty
  refine ⟨r, h r, ?_⟩
  intro r'
  rw [Gate.arrived_of_inside (h r')]
  exact Nat.lt_succ_of_le (hr r' (Finset.mem_univ r'))

/-- One party arrives or leaves, the others stay. -/
theorem Together.of_step {gate' : ρ → Gate} {r : ρ} (h : Together gate)
    (harrived : ∀ r', (gate r').arrived ≤ (gate' r').arrived)
    (hothers : ∀ r', r' ≠ r → (gate' r').passed ≤ (gate r').passed)
    (hself : ∀ r', (gate' r).passed ≤ (gate' r').arrived) : Together gate' := by
  intro a b
  obtain rfl | hne := Classical.em (a = r)
  · exact hself b
  · exact ((hothers a hne).trans (h a b)).trans (harrived b)

end Barriers
