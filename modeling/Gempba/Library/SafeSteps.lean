import Gempba.Library.Machine

/-!
# Steps that keep a property

A property of an attempted step says what holds of the state it moves to. It is
read off the definition of the step, branch by branch, and an invariant follows
with no inversion of the step.
-/

namespace Transition

set_option autoImplicit false

universe u v w

namespace Outcome

variable {ε : Type u} {σ τ : Type v} {P Q : σ → Prop}

/-- Wherever the step moves to, the property holds. -/
def Keeps (P : σ → Prop) : Outcome ε σ → Prop
  | .moved s => P s
  | .blocked | .raised _ => True

/-- The step keeps the property and raises no error. -/
def Sure (P : σ → Prop) : Outcome ε σ → Prop
  | .moved s => P s
  | .blocked => True
  | .raised _ => False

variable {x : Outcome ε σ}

theorem Keeps.of_moved {s : σ} (h : x.Keeps P) (hx : x = .moved s) : P s := by
  rw [hx] at h
  exact h

theorem Sure.keeps (h : x.Sure P) : x.Keeps P := by
  cases x with
  | moved s => exact h
  | blocked | raised => trivial

theorem Sure.mono (h : x.Sure P) (hPQ : ∀ s, P s → Q s) : x.Sure Q := by
  cases x with
  | moved s => exact hPQ s h
  | blocked => trivial
  | raised e => exact h

theorem Sure.map {R : τ → Prop} {f : σ → τ} (h : x.Sure fun s => R (f s)) :
    (x.map f).Sure R := by
  cases x with
  | moved s => exact h
  | blocked => trivial
  | raised e => exact h

theorem Sure.mapError {δ : Type*} {f : ε → δ} (h : x.Sure P) : (x.mapError f).Sure P := by
  cases x with
  | moved s => exact h
  | blocked => trivial
  | raised e => exact h

theorem Sure.bind {R : τ → Prop} {f : σ → Outcome ε τ} (h : x.Sure P)
    (hf : ∀ s, P s → (f s).Sure R) : (x.bind f).Sure R := by
  cases x with
  | moved s => exact hf s h
  | blocked => trivial
  | raised e => exact h

theorem Sure.ne_raised (h : x.Sure P) (e : ε) : x ≠ .raised e := by
  rintro rfl
  exact h

end Outcome

namespace Machine

variable {σ : Type u} {ι : Type v} {ε : Type w} {M : Machine σ ι ε} {P : σ → ι → Prop}
  {I : σ → Prop}

theorem ReachableWhere.keeps (h0 : ∀ s, M.initial s → I s)
    (hstep : ∀ s l, M.ReachableWhere P s → I s → P s l → (M.step l s).Keeps I) {t : σ}
    (h : M.ReachableWhere P t) : I t :=
  h.invariant h0 fun s l _ hs hI hl hst => (hstep s l hs hI hl).of_moved hst

theorem keeps_run (hstep : ∀ s l, I s → (M.step l s).Keeps I) {ls : List ι} {s t : σ} (hs : I s)
    (hrun : M.run ls s = some t) : I t := by
  induction ls generalizing s with
  | nil =>
    cases hrun
    exact hs
  | cons l ls ih =>
    simp only [Machine.run] at hrun
    split at hrun
    · rename_i u hu
      exact ih ((hstep s l hs).of_moved hu) hrun
    · cases hrun

/-- With an invariant that makes every step sure, no step raises. -/
theorem ReachableWhere.sure (h0 : ∀ s, M.initial s → I s)
    (hstep : ∀ s l, I s → P s l → (M.step l s).Sure I) {t : σ} (h : M.ReachableWhere P t) :
    I t ∧ ∀ l e, P t l → M.step l t ≠ .raised e := by
  have hI : I t := h.keeps h0 fun s l _ hs hl => (hstep s l hs hl).keeps
  exact ⟨hI, fun l e hl => (hstep t l hI hl).ne_raised e⟩

end Machine

end Transition
