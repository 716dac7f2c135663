import Gempba.Library.Lines

/-!
# Lines as they are written

A writer ends every line with the separator. Cutting what it wrote gives the
lines back, and cutting a part of it gives all lines but a beginning of one.
-/

namespace Lines

set_option autoImplicit false

variable {α : Type} [DecidableEq α] {sep : α} {s t : List α}

/-- A text without a separator, and one at its end. -/
def IsWritten (sep : α) (line : List α) : Prop := ∃ text, sep ∉ text ∧ line = text ++ [sep]

theorem split_append_sep (ht : sep ∉ t) (s : List α) :
    split sep (t ++ sep :: s) = (t :: complete sep s, unfinished sep s) := by
  induction t with
  | nil => rw [List.nil_append, split, if_pos rfl, split_eq]
  | cons c t ih =>
    rw [List.mem_cons, not_or] at ht
    obtain ⟨hc, ht⟩ := ht
    rw [List.cons_append, split, if_neg (Ne.symm hc), ih ht]
    rfl

theorem complete_append_sep (ht : sep ∉ t) (s : List α) :
    complete sep (t ++ sep :: s) = t :: complete sep s :=
  congrArg Prod.fst (split_append_sep ht s)

theorem notMem_of_complete_nil (h : complete sep s = []) : sep ∉ s := by
  induction s with
  | nil => exact List.not_mem_nil
  | cons c s ih =>
    obtain rfl | hc := Decidable.em (c = sep)
    · rw [complete_sep] at h
      cases h
    · rw [complete, split_of_ne hc] at h
      cases hcomplete : complete sep s with
      | nil => exact List.not_mem_cons_of_ne_of_not_mem (Ne.symm hc) (ih hcomplete)
      | cons line lines =>
        rw [hcomplete] at h
        cases h

theorem notMem_unfinished (s : List α) : sep ∉ unfinished sep s :=
  notMem_of_complete_nil complete_unfinished

theorem flatten_complete (s : List α) :
    ((complete sep s).map (· ++ [sep])).flatten ++ unfinished sep s = s := by
  induction s with
  | nil => rfl
  | cons c s ih =>
    obtain rfl | hc := Decidable.em (c = sep)
    · rw [complete_sep, unfinished_sep, List.map_cons, List.flatten_cons, List.append_assoc, ih]
      rfl
    · cases hlines : complete sep s with
      | nil =>
        have hsplit : split sep (c :: s) = ([], c :: s) := by
          rw [split_of_ne hc, hlines, unfinished_of_complete_nil hlines]
          rfl
        obtain ⟨hcomplete, hunfinished⟩ := Prod.mk.inj (split_eq.symm.trans hsplit)
        rw [hcomplete, hunfinished]
        rfl
      | cons line lines =>
        have hsplit : split sep (c :: s) = ((c :: line) :: lines, unfinished sep s) := by
          rw [split_of_ne hc, hlines]
          rfl
        obtain ⟨hcomplete, hunfinished⟩ := Prod.mk.inj (split_eq.symm.trans hsplit)
        rw [hlines] at ih
        rw [hcomplete, hunfinished]
        exact congrArg (c :: ·) ih

/-- Written lines are cut where they were put together. -/
theorem complete_flatten {lines : List (List α)} (h : ∀ line ∈ lines, IsWritten sep line) :
    (complete sep lines.flatten).map (· ++ [sep]) = lines := by
  induction lines with
  | nil => rfl
  | cons line lines ih =>
    obtain ⟨text, htext, rfl⟩ := h line List.mem_cons_self
    rw [List.flatten_cons, List.append_assoc, List.singleton_append, complete_append_sep htext,
      List.map_cons, ih fun other hother => h other (List.mem_cons_of_mem _ hother)]

/-- A part of written lines that leaves off within a line. -/
theorem complete_of_append {lines : List (List α)} (h : ∀ line ∈ lines, IsWritten sep line)
    (ht : sep ∉ t) (hlines : s ++ (t ++ [sep]) = lines.flatten) :
    lines = (complete sep s).map (· ++ [sep]) ++ [unfinished sep s ++ t ++ [sep]] := by
  have hnot : sep ∉ unfinished sep s ++ t := by
    rw [List.mem_append, not_or]
    exact ⟨notMem_unfinished s, ht⟩
  have hcomplete : complete sep lines.flatten =
      complete sep s ++ [unfinished sep s ++ t] := by
    rw [← hlines, complete_append, ← List.append_assoc, complete_append_sep hnot]
    rfl
  rw [← complete_flatten h, hcomplete, List.map_append]
  rfl

end Lines
