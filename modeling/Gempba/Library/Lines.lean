import Mathlib.Data.Nat.Notation

/-!
# Lines of a stream

A stream is cut after each separator: the complete lines, without it, and what
is left of an unfinished one. Cutting a longer stream goes on from there.
-/

namespace Lines

set_option autoImplicit false

variable {α : Type} [DecidableEq α] (sep : α)

def extend (c : α) : List (List α) × List α → List (List α) × List α
  | ([], rest) => ([], c :: rest)
  | (line :: lines, rest) => ((c :: line) :: lines, rest)

def split : List α → List (List α) × List α
  | [] => ([], [])
  | c :: s => if c = sep then ([] :: (split s).1, (split s).2) else extend c (split s)

def complete (s : List α) : List (List α) := (split sep s).1

def unfinished (s : List α) : List α := (split sep s).2

variable {sep} {s t : List α}

theorem split_eq : split sep s = (complete sep s, unfinished sep s) := rfl

/-- Without a complete line nothing is cut off. -/
theorem unfinished_of_complete_nil (h : complete sep s = []) : unfinished sep s = s := by
  induction s with
  | nil => rfl
  | cons c s ih =>
    rw [complete, split] at h
    rw [unfinished, split]
    split at h
    · cases h
    · rename_i hc
      rw [if_neg hc]
      rw [split_eq] at h ⊢
      cases hcomplete : complete sep s with
      | nil =>
        rw [extend, ih hcomplete]
      | cons line lines =>
        rw [hcomplete] at h
        cases h

theorem complete_sep : complete sep (sep :: s) = [] :: complete sep s := by
  rw [complete, split, if_pos rfl]
  rfl

theorem unfinished_sep : unfinished sep (sep :: s) = unfinished sep s := by
  rw [unfinished, split, if_pos rfl]
  rfl

theorem split_of_ne {c : α} (hc : c ≠ sep) :
    split sep (c :: s) = extend c (complete sep s, unfinished sep s) := by
  rw [split, if_neg hc, split_eq]

theorem split_append : split sep (s ++ t) =
    (complete sep s ++ complete sep (unfinished sep s ++ t),
      unfinished sep (unfinished sep s ++ t)) := by
  induction s with
  | nil => rfl
  | cons c s ih =>
    obtain ⟨hcomplete, hunfinished⟩ := Prod.mk.inj (split_eq.symm.trans ih)
    obtain rfl | hc := Decidable.em (c = sep)
    · rw [List.cons_append, split_eq, complete_sep, unfinished_sep, hcomplete, hunfinished,
        complete_sep, unfinished_sep]
      rfl
    · rw [List.cons_append, split_of_ne hc, hcomplete, hunfinished]
      cases hlines : complete sep s with
      | nil =>
        have hsplit : split sep (c :: s) = ([], c :: s) := by
          rw [split_of_ne hc, hlines, unfinished_of_complete_nil hlines]
          rfl
        obtain ⟨hcomplete', hunfinished'⟩ := Prod.mk.inj (split_eq.symm.trans hsplit)
        rw [hcomplete', hunfinished', unfinished_of_complete_nil hlines, List.nil_append,
          List.nil_append, List.cons_append, ← split_of_ne hc]
        rfl
      | cons line lines =>
        have hsplit := split_of_ne (s := s) hc
        rw [hlines] at hsplit
        obtain ⟨hcomplete', hunfinished'⟩ := Prod.mk.inj (split_eq.symm.trans hsplit)
        rw [hcomplete', hunfinished']
        rfl

theorem complete_append :
    complete sep (s ++ t) = complete sep s ++ complete sep (unfinished sep s ++ t) :=
  (Prod.mk.inj (split_eq.symm.trans split_append)).1

theorem complete_of_idxOf?_none (h : s.idxOf? sep = none) : complete sep s = [] := by
  induction s with
  | nil => rfl
  | cons c s ih =>
    rw [List.idxOf?_cons] at h
    split at h
    · cases h
    · rename_i hc
      have hne : c ≠ sep := fun he => hc (beq_iff_eq.mpr he)
      rw [complete, split_of_ne hne, ih (Option.map_eq_none_iff.mp h)]
      rfl

/-- The first separator ends the first line. -/
theorem split_of_idxOf? {i : ℕ} (h : s.idxOf? sep = some i) :
    split sep s = (s.take i :: complete sep (s.drop (i + 1)), unfinished sep (s.drop (i + 1))) := by
  induction s generalizing i with
  | nil => cases h
  | cons c s ih =>
    rw [List.idxOf?_cons] at h
    split at h
    · rename_i hc
      cases h
      rw [beq_iff_eq.mp hc, split_eq, complete_sep, unfinished_sep]
      rfl
    · rename_i hc
      have hne : c ≠ sep := fun he => hc (beq_iff_eq.mpr he)
      obtain ⟨j, hj, rfl⟩ := Option.map_eq_some_iff.mp h
      rw [split, if_neg hne, ih hj]
      rfl

theorem complete_unfinished : complete sep (unfinished sep s) = [] := by
  have h : complete sep (s ++ []) = complete sep s ++ complete sep (unfinished sep s ++ []) :=
    complete_append
  rw [List.append_nil, List.append_nil] at h
  exact List.append_right_eq_self.mp h.symm

end Lines
