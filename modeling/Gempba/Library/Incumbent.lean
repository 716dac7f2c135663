import Mathlib.Data.List.Induction

/-!
# The first best element of a sequence

An incumbent gives way to what is strictly better. After a sequence it is
either the one it started with, on which nothing improved, or the first of
the elements that no element improves on.
-/

namespace Incumbent

universe u

variable {α : Type u}

/-- A strict order that every element meeting `P` splits. -/
structure Ranking (better : α → α → Prop) (P : α → Prop) : Prop where
  irrefl : ∀ a, ¬ better a a
  trans : ∀ a b c, better a b → better b c → better a c
  split : ∀ a b c, P b → better a c → better a b ∨ better b c

/-- Nothing is better than `best`, and what comes before it is worse. -/
def FirstBest (better : α → α → Prop) (xs : List α) (best : α) : Prop :=
  ∃ before after, xs = before ++ best :: after ∧
    (∀ x ∈ before, better best x) ∧ ∀ x ∈ xs, ¬ better x best

variable {better : α → α → Prop} {P : α → Prop} {xs : List α} {best x : α}

theorem FirstBest.mem (h : FirstBest better xs best) : best ∈ xs := by
  obtain ⟨before, after, rfl, _⟩ := h
  exact List.mem_append_right before List.mem_cons_self

/-- What is not better than the best may follow. -/
theorem FirstBest.append (h : FirstBest better xs best) (hx : ¬ better x best) :
    FirstBest better (xs ++ [x]) best := by
  obtain ⟨before, after, rfl, hbefore, hbest⟩ := h
  refine ⟨before, after ++ [x], by simp, hbefore, fun y hy => ?_⟩
  obtain hy | hy := List.mem_append.mp hy
  · exact hbest y hy
  · rw [List.mem_singleton.mp hy]
    exact hx

/-- What improves on a bound that nothing exceeds is the first best. -/
theorem Ranking.last (hr : Ranking better P) (hP : ∀ y ∈ xs, P y) {bound : α}
    (hbound : ∀ y ∈ xs, ¬ better y bound) (hx : better x bound) :
    FirstBest better (xs ++ [x]) x := by
  have hbefore : ∀ y ∈ xs, better x y := by
    intro y hy
    exact (hr.split x y bound (hP y hy) hx).resolve_right (hbound y hy)
  refine ⟨xs, [], rfl, hbefore, fun y hy hyx => ?_⟩
  obtain hy | hy := List.mem_append.mp hy
  · exact hr.irrefl x (hr.trans x y x (hbefore y hy) hyx)
  · rw [List.mem_singleton.mp hy] at hyx
    exact hr.irrefl x hyx

variable [DecidableRel better]

variable (better) in
def keep (best x : α) : α := if better x best then x else best

theorem foldl_keep (hr : Ranking better P) (hP : ∀ y ∈ xs, P y) (start : α) :
    (xs.foldl (keep better) start = start ∧ ∀ y ∈ xs, ¬ better y start) ∨
      (FirstBest better xs (xs.foldl (keep better) start) ∧
        better (xs.foldl (keep better) start) start) := by
  induction xs using List.reverseRecOn with
  | nil => exact Or.inl ⟨rfl, by simp⟩
  | append_singleton xs x ih =>
    have hxs : ∀ y ∈ xs, P y := fun y hy => hP y (List.mem_append_left _ hy)
    rw [List.foldl_append, List.foldl_cons, List.foldl_nil, keep]
    obtain ⟨hstart, hworse⟩ | ⟨hfirst, himproved⟩ := ih hxs
    · rw [hstart]
      split
      · rename_i hx
        exact Or.inr ⟨hr.last hxs hworse hx, hx⟩
      · rename_i hx
        refine Or.inl ⟨rfl, fun y hy => ?_⟩
        obtain hy | hy := List.mem_append.mp hy
        · exact hworse y hy
        · rw [List.mem_singleton.mp hy]
          exact hx
    · obtain ⟨_, _, _, _, hbest⟩ := id hfirst
      split
      · rename_i hx
        exact Or.inr ⟨hr.last hxs hbest hx, hr.trans _ _ _ hx himproved⟩
      · rename_i hx
        exact Or.inr ⟨hfirst.append hx, himproved⟩

end Incumbent
