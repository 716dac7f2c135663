import Gempba.Library.Machine
import Mathlib.Algebra.BigOperators.Group.Finset.Piecewise
import Mathlib.Algebra.BigOperators.Group.List.Basic
import Mathlib.Algebra.GroupWithZero.Nat

/-!
# Machines that complete

Some labels are internal: they use up work, and other labels bring it. When an
internal step costs a unit of work and a state that is not final has an
internal step left, the internal steps end in a final state in whatever order
they are made.
-/

namespace Transition

universe u v w

/-- A sum over an update, in terms of the sum before it. -/
theorem sum_update_add {κ α : Type*} [Fintype κ] [DecidableEq κ] (f : α → ℕ) (g : κ → α) (k : κ)
    (a : α) : ∑ x, f (Function.update g k a x) + f (g k) = ∑ x, f (g x) + f a := by
  have hupdate : (fun x => f (Function.update g k a x)) =
      Function.update (fun x => f (g x)) k (f a) := Function.comp_update f g k a
  have hrest := Finset.sum_update_of_mem (Finset.mem_univ k) (fun x => f (g x)) (f a)
  have hall := Finset.sum_sdiff (Finset.subset_univ {k}) (f := fun x => f (g x))
  rw [Finset.sum_singleton] at hall
  rw [hupdate, hrest, ← hall]
  omega

namespace Machine

variable {σ : Type u} {ι : Type v} {ε : Type w}

/-- What the internal steps of any run cost is covered by the work at its start and by what its
steps bring, and a run of internal steps goes on as long as its state is not final. -/
structure Completes (M : Machine σ ι ε) (internal : ι → Bool) (gain : ι → ℕ) (work : σ → ℕ)
    (final : σ → Prop) (s : σ) : Prop where
  bounded : ∀ ls t, M.run ls s = some t →
    ls.countP internal + work t ≤ work s + (ls.map gain).sum
  goesOn : ∀ ls t, (∀ l ∈ ls, internal l = true) → M.run ls s = some t →
    final t ∨ ∃ l u, internal l = true ∧ M.step l t = .moved u

variable {M : Machine σ ι ε} {internal : ι → Bool} {gain : ι → ℕ} {work : σ → ℕ}
  {final : σ → Prop} {s t : σ}

theorem run_cons {l : ι} {ls : List ι} (h : M.step l s = .moved t) :
    M.run (l :: ls) s = M.run ls t := by
  rw [Machine.run, h]

theorem run_cons_eq_some {l : ι} {ls : List ι} (h : M.run (l :: ls) s = some t) :
    ∃ u, M.step l s = .moved u ∧ M.run ls u = some t := by
  rw [Machine.run] at h
  split at h
  · rename_i u hu
    exact ⟨u, hu, h⟩
  · cases h

theorem run_append {ls ls' : List ι} (h : M.run ls s = some t) :
    M.run (ls ++ ls') s = M.run ls' t := by
  induction ls generalizing s with
  | nil =>
    cases h
    rfl
  | cons l ls ih =>
    obtain ⟨u, hu, hrun⟩ := run_cons_eq_some h
    rw [List.cons_append, run_cons hu]
    exact ih hrun

theorem run_invariant {I : σ → Prop}
    (hI : ∀ s l t, I s → internal l = true → M.step l s = .moved t → I t) {ls : List ι}
    (hls : ∀ l ∈ ls, internal l = true) (hrun : M.run ls s = some t) (hs : I s) : I t := by
  induction ls generalizing s with
  | nil =>
    cases hrun
    exact hs
  | cons l ls ih =>
    obtain ⟨u, hu, hrun⟩ := run_cons_eq_some hrun
    have hl := hls l List.mem_cons_self
    exact ih (fun k hk => hls k (List.mem_cons_of_mem l hk)) hrun (hI s l u hs hl hu)

theorem run_bounded
    (hstep : ∀ s l t, M.step l s = .moved t → (internal l).toNat + work t ≤ work s + gain l)
    {ls : List ι} (hrun : M.run ls s = some t) :
    ls.countP internal + work t ≤ work s + (ls.map gain).sum := by
  induction ls generalizing s with
  | nil =>
    cases hrun
    simp
  | cons l ls ih =>
    obtain ⟨u, hu, hrun⟩ := run_cons_eq_some hrun
    have hl := hstep s l u hu
    have hls := ih hrun
    rw [List.countP_cons, List.map_cons, List.sum_cons]
    cases hinternal : internal l with
    | false =>
      rw [hinternal, Bool.toNat_false] at hl
      simp only [Bool.false_eq_true, if_false]
      omega
    | true =>
      rw [hinternal, Bool.toNat_true] at hl
      simp only [if_true]
      omega

/-- The rule: every step is paid for, and what is kept by internal steps allows another one. -/
theorem completes_of {I : σ → Prop}
    (hstep : ∀ s l t, M.step l s = .moved t → (internal l).toNat + work t ≤ work s + gain l)
    (hI : ∀ s l t, I s → internal l = true → M.step l s = .moved t → I t)
    (hgoes : ∀ s, I s → final s ∨ ∃ l t, internal l = true ∧ M.step l s = .moved t)
    (hs : I s) : M.Completes internal gain work final s where
  bounded _ _ hrun := run_bounded hstep hrun
  goesOn _ t hls hrun := hgoes t (run_invariant hI hls hrun hs)

/-- Internal steps that bring nothing are at most as many as there is work. -/
theorem Completes.length_le (h : M.Completes internal gain work final s)
    (hgain : ∀ l, internal l = true → gain l = 0) {ls : List ι}
    (hls : ∀ l ∈ ls, internal l = true) (hrun : M.run ls s = some t) : ls.length ≤ work s := by
  have hbound := h.bounded ls t hrun
  have hzero : (ls.map gain).sum = 0 := by
    apply List.sum_eq_zero
    intro n hn
    obtain ⟨l, hl, rfl⟩ := List.mem_map.mp hn
    exact hgain l (hls l hl)
  rw [List.countP_eq_length.mpr hls, hzero] at hbound
  omega

/-- Some run of internal steps reaches a final state, if these steps bring nothing. -/
theorem Completes.exists_final (h : M.Completes internal gain work final s)
    (hgain : ∀ l, internal l = true → gain l = 0) :
    ∃ ls t, (∀ l ∈ ls, internal l = true) ∧ M.run ls s = some t ∧ final t := by
  by_contra hnone
  -- Otherwise there are internal runs of any length.
  have hlong : ∀ n, ∃ ls t, (∀ l ∈ ls, internal l = true) ∧ ls.length = n ∧
      M.run ls s = some t := by
    intro n
    induction n with
    | zero => exact ⟨[], s, List.forall_mem_nil _, rfl, rfl⟩
    | succ n ih =>
      obtain ⟨ls, t, hls, hlength, hrun⟩ := ih
      obtain hfinal | ⟨l, u, hl, hu⟩ := h.goesOn ls t hls hrun
      · exact absurd ⟨ls, t, hls, hrun, hfinal⟩ hnone
      · refine ⟨ls ++ [l], u, ?_, ?_, ?_⟩
        · intro k hk
          obtain hk | hk := List.mem_append.mp hk
          · exact hls k hk
          · exact List.mem_singleton.mp hk ▸ hl
        · rw [List.length_append, hlength, List.length_singleton]
        · rw [run_append hrun, run_cons hu, Machine.run]
  obtain ⟨ls, t, hls, hlength, hrun⟩ := hlong (work s + 1)
  have hle := h.length_le hgain hls hrun
  omega

end Machine

end Transition
