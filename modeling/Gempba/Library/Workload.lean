import Gempba.Library.Machine
import Mathlib.Algebra.BigOperators.Group.Finset.Basic
import Mathlib.Algebra.BigOperators.Group.Multiset.Basic

/-!
# Work that splits into smaller work

A state shows a bag of tasks and what has been done so far. A step takes one
task out, does some of it and puts the tasks back that it leaves. When every
task is worth what it does at once and what it leaves, nothing is lost; when
it costs more than what it leaves, every run ends.
-/

namespace Transition

universe u v w x y

section Sums

variable {κ : Type u} [Fintype κ] [DecidableEq κ] {α : Type v} {A : Type w} [AddCommMonoid A]

/-- A total over a family of states of which one has changed. -/
theorem sum_update {s : κ → α} {k : κ} {a : α} (f : α → A) {gone come : A}
    (h : f a + gone = f (s k) + come) :
    ∑ i, f (Function.update s k a i) + gone = ∑ i, f (s i) + come := by
  rw [← Finset.add_sum_erase _ _ (Finset.mem_univ k),
    ← Finset.add_sum_erase _ _ (Finset.mem_univ k), Function.update_self]
  have hRest : ∑ i ∈ Finset.univ.erase k, f (Function.update s k a i) =
      ∑ i ∈ Finset.univ.erase k, f (s i) := by
    refine Finset.sum_congr rfl fun i hi => ?_
    rw [Function.update_of_ne (Finset.ne_of_mem_erase hi)]
  rw [hRest, add_right_comm, h, add_right_comm]

theorem sum_eraseIdx {β : Type v} {l : List β} {i : ℕ} {x : β} (h : l[i]? = some x) (f : β → A) :
    ((l.eraseIdx i).map f).sum + f x = (l.map f).sum := by
  obtain ⟨hi, hGet⟩ := List.getElem?_eq_some_iff.mp h
  have hPerm := (List.getElem_cons_eraseIdx_perm hi).map f
  rw [← hPerm.sum_eq, List.map_cons, List.sum_cons, hGet, add_comm]

end Sums

/-- What a task may do and leave. -/
abbrev Splitting (τ : Type u) (ω : Type v) := τ → Multiset ω → Multiset τ → Prop

namespace Splitting

variable {τ : Type u} {ω : Type v} (R : Splitting τ ω)

/-- One task splits. -/
def Step (s t : Multiset ω × Multiset τ) : Prop :=
  ∃ x w ys, R x w ys ∧ t.1 = w + s.1 ∧ t.2 + {x} = s.2 + ys

/-- Worth what it does and what it leaves. -/
def Fair (value : τ → Multiset ω) : Prop :=
  ∀ x w ys, R x w ys → value x = w + (ys.map value).sum

def Shrinking (cost : τ → ℕ) : Prop :=
  ∀ x w ys, R x w ys → (ys.map cost).sum < cost x

variable {R} {s t : Multiset ω × Multiset τ}

theorem Step.conserves {value : τ → Multiset ω} (hR : R.Fair value) (h : R.Step s t) :
    t.1 + (t.2.map value).sum = s.1 + (s.2.map value).sum := by
  obtain ⟨x, w, ys, hx, hDone, hTasks⟩ := h
  have hSums : (t.2.map value).sum + value x = (s.2.map value).sum + (ys.map value).sum := by
    have hMap := congrArg (fun m => (m.map value).sum) hTasks
    simpa only [Multiset.map_add, Multiset.sum_add, Multiset.map_singleton,
      Multiset.sum_singleton] using hMap
  rw [hR x w ys hx, ← add_assoc] at hSums
  have hCancel : (t.2.map value).sum + w = (s.2.map value).sum := add_right_cancel hSums
  rw [hDone, ← hCancel, add_comm w s.1, add_assoc, add_comm w]

theorem Step.shrinks {cost : τ → ℕ} (hR : R.Shrinking cost) (h : R.Step s t) :
    (t.2.map cost).sum < (s.2.map cost).sum := by
  obtain ⟨x, w, ys, hx, -, hTasks⟩ := h
  have hSums : (t.2.map cost).sum + cost x = (s.2.map cost).sum + (ys.map cost).sum := by
    have hMap := congrArg (fun m => (m.map cost).sum) hTasks
    simpa only [Multiset.map_add, Multiset.sum_add, Multiset.map_singleton,
      Multiset.sum_singleton] using hMap
  have hLess := hR x w ys hx
  omega

variable {σ : Type w} {ι : Type x} {ε : Type y} {M : Machine σ ι ε}
  {view : σ → Multiset ω × Multiset τ}

/-- Every step splits one task of the view. -/
def Drives (R : Splitting τ ω) (M : Machine σ ι ε) (view : σ → Multiset ω × Multiset τ) : Prop :=
  ∀ s l t, M.Reachable s → M.step l s = .moved t → R.Step (view s) (view t)

theorem Drives.conserves {value : τ → Multiset ω} (h : R.Drives M view) (hR : R.Fair value)
    {total : Multiset ω}
    (h0 : ∀ s, M.initial s → (view s).1 + ((view s).2.map value).sum = total) {s : σ}
    (hs : M.Reachable s) : (view s).1 + ((view s).2.map value).sum = total := by
  refine hs.invariant (I := fun s => (view s).1 + ((view s).2.map value).sum = total) h0 ?_
  intro s l t hs hTotal _ hst
  exact ((h s l t hs hst).conserves hR).trans hTotal

theorem Drives.cost_le {cost : τ → ℕ} (h : R.Drives M view) (hR : R.Shrinking cost) {bound : ℕ}
    (h0 : ∀ s, M.initial s → ((view s).2.map cost).sum ≤ bound) {s : σ} (hs : M.Reachable s) :
    ((view s).2.map cost).sum ≤ bound := by
  refine hs.invariant (I := fun s => ((view s).2.map cost).sum ≤ bound) h0 ?_
  intro s l t hs hBound _ hst
  exact Nat.le_trans (Nat.le_of_lt ((h s l t hs hst).shrinks hR)) hBound

/-- No run is longer than what the tasks at its start cost. -/
theorem Drives.run_le {cost : τ → ℕ} (h : R.Drives M view) (hR : R.Shrinking cost) {ls : List ι}
    {s t : σ} (hs : M.Reachable s) (hrun : M.run ls s = some t) :
    ls.length + ((view t).2.map cost).sum ≤ ((view s).2.map cost).sum := by
  induction ls generalizing s with
  | nil =>
    cases hrun
    rw [List.length_nil, Nat.zero_add]
  | cons l ls ih =>
    simp only [Machine.run] at hrun
    split at hrun
    · rename_i u hu
      have hLess := (h s l u hs hu).shrinks hR
      have hRest := ih (hs.tail trivial hu) hrun
      rw [List.length_cons]
      omega
    · cases hrun

end Splitting

end Transition
