import Mathlib.Data.Nat.Notation

/-!
# The termination detector of one rank

A missing parent stands for `NO_PARENT`. The deficit is decremented behind a
test for zero, so it is a natural number.
-/

namespace Gempba

set_option autoImplicit false

structure TerminationDetector (ρ : Type) where
  isRoot : Bool
  deficit : ℕ
  parent : Option ρ

namespace TerminationDetector

variable {ρ : Type}

def make (isRoot : Bool) : TerminationDetector ρ := ⟨isRoot, 0, none⟩

def onTaskSent (d : TerminationDetector ρ) : TerminationDetector ρ :=
  { d with deficit := d.deficit + 1 }

/-- The rank to acknowledge now, if any. -/
def onTaskReceived (sender : ρ) (d : TerminationDetector ρ) :
    Option ρ × TerminationDetector ρ :=
  if d.isRoot || d.parent.isSome then (some sender, d)
  else (none, { d with parent := some sender })

def onAckReceived (d : TerminationDetector ρ) : Bool × TerminationDetector ρ :=
  if d.deficit = 0 then (false, d) else (true, { d with deficit := d.deficit - 1 })

/-- The parent to acknowledge now, if any; the rank is then disengaged. -/
def onPassive (d : TerminationDetector ρ) : Option ρ × TerminationDetector ρ :=
  if d.deficit ≠ 0 || d.parent.isNone then (none, d) else (d.parent, { d with parent := none })

def isQuiescent (d : TerminationDetector ρ) : Bool := d.deficit = 0 && d.parent.isNone

@[simp] theorem onTaskSent_isRoot (d : TerminationDetector ρ) :
    d.onTaskSent.isRoot = d.isRoot := rfl

@[simp] theorem onTaskReceived_isRoot (s : ρ) (d : TerminationDetector ρ) :
    (d.onTaskReceived s).2.isRoot = d.isRoot := by
  unfold onTaskReceived
  split <;> rfl

@[simp] theorem onTaskReceived_deficit (s : ρ) (d : TerminationDetector ρ) :
    (d.onTaskReceived s).2.deficit = d.deficit := by
  unfold onTaskReceived
  split <;> rfl

@[simp] theorem onAckReceived_isRoot (d : TerminationDetector ρ) :
    d.onAckReceived.2.isRoot = d.isRoot := by
  unfold onAckReceived
  split <;> rfl

@[simp] theorem onAckReceived_parent (d : TerminationDetector ρ) :
    d.onAckReceived.2.parent = d.parent := by
  unfold onAckReceived
  split <;> rfl

@[simp] theorem onAckReceived_deficit (d : TerminationDetector ρ) :
    d.onAckReceived.2.deficit = d.deficit - 1 := by
  unfold onAckReceived
  split
  · rename_i h
    simp [h]
  · rfl

theorem onAckReceived_fst (d : TerminationDetector ρ) :
    d.onAckReceived.1 = true ↔ 0 < d.deficit := by
  unfold onAckReceived
  split <;> simp <;> omega

@[simp] theorem onPassive_isRoot (d : TerminationDetector ρ) :
    d.onPassive.2.isRoot = d.isRoot := by
  unfold onPassive
  split <;> rfl

@[simp] theorem onPassive_deficit (d : TerminationDetector ρ) :
    d.onPassive.2.deficit = d.deficit := by
  unfold onPassive
  split <;> rfl

theorem onPassive_of_passive {d : TerminationDetector ρ} {p : ρ} (hd : d.deficit = 0)
    (hp : d.parent = some p) : d.onPassive = (some p, { d with parent := none }) := by
  simp [onPassive, hd, hp]

/-- After the call an engaged rank is owed an acknowledgement itself. -/
theorem onPassive_engaged (d : TerminationDetector ρ) (h : d.onPassive.2.parent ≠ none) :
    d.onPassive.2.deficit ≠ 0 := by
  unfold onPassive at h ⊢
  by_cases hd : d.deficit = 0
  · cases hp : d.parent <;> simp [hd, hp] at h
  · simp [hd]

theorem isQuiescent_iff (d : TerminationDetector ρ) :
    d.isQuiescent = true ↔ d.deficit = 0 ∧ d.parent = none := by
  simp [isQuiescent]

end TerminationDetector

end Gempba
