import Mathlib.Data.List.Infix
import Mathlib.Data.Nat.Notation

/-!
# Paths of names

A path below a root has a separator before each of its names. Cutting it at the
last separator leads from the leaf up to the root, level by level.
-/

namespace Paths

set_option autoImplicit false

variable {α : Type}

def under (sep : α) (root : List α) (names : List (List α)) : List α :=
  root ++ names.flatMap fun name => sep :: name

/-- The paths from the leaf up to the root. -/
def levels (sep : α) (root : List α) (names : List (List α)) : List (List α) :=
  (names.inits.map (under sep root)).reverse

section FindLast

variable [DecidableEq α]

/-- The index of the last separator. -/
def findLast (sep : α) : List α → Option ℕ
  | [] => none
  | c :: s =>
    match findLast sep s with
    | some i => some (i + 1)
    | none => if c = sep then some 0 else none

variable {sep : α} {s name : List α}

theorem findLast_none (h : sep ∉ name) : findLast sep name = none := by
  induction name with
  | nil => rfl
  | cons c name ih =>
    have hc : c ≠ sep := fun hc => h (hc ▸ List.mem_cons_self)
    rw [findLast, ih fun hmem => h (List.mem_cons_of_mem c hmem)]
    exact if_neg hc

theorem findLast_append (s : List α) (h : sep ∉ name) :
    findLast sep (s ++ sep :: name) = some s.length := by
  induction s with
  | nil =>
    rw [List.nil_append, findLast, findLast_none h]
    exact if_pos rfl
  | cons c s ih =>
    rw [List.cons_append, findLast, ih]
    rfl

end FindLast

section Levels

variable {sep : α} {root name : List α} {names : List (List α)}

theorem under_nil : under sep root [] = root := List.append_nil root

theorem under_concat : under sep root (names ++ [name]) = under sep root names ++ sep :: name := by
  rw [under, under, List.flatMap_append, List.append_assoc]
  congr 2
  exact List.append_nil _

theorem length_under_le : root.length ≤ (under sep root names).length := by
  rw [under, List.length_append]
  exact Nat.le_add_right _ _

theorem levels_nil : levels sep root [] = [root] :=
  congrArg (fun level => [level]) under_nil

theorem levels_concat : levels sep root (names ++ [name]) =
    under sep root (names ++ [name]) :: levels sep root names := by
  have hinits : (names ++ [name]).inits = names.inits ++ [names ++ [name]] :=
    List.inits_append names [name]
  rw [levels, levels, hinits, List.map_append, List.reverse_append]
  rfl

theorem leaf_mem (sep : α) (root : List α) (names : List (List α)) :
    under sep root names ∈ levels sep root names :=
  List.mem_reverse.mpr (List.mem_map_of_mem ((List.mem_inits _ _).mpr (List.prefix_refl names)))

theorem root_prefix {level : List α} (h : level ∈ levels sep root names) : root <+: level := by
  obtain ⟨part, _, rfl⟩ := List.mem_map.mp (List.mem_reverse.mp h)
  exact List.prefix_append root _

theorem under_cons : under sep root (name :: names) = root ++ sep :: under sep name names := by
  rw [under, under, List.flatMap_cons, List.cons_append]

theorem exists_under (sep : α) (s : List α) :
    ∃ first names, sep ∉ first ∧ (∀ name ∈ names, sep ∉ name) ∧ under sep first names = s := by
  induction s with
  | nil => exact ⟨[], [], List.not_mem_nil, fun _ hname => absurd hname List.not_mem_nil, rfl⟩
  | cons c s ih =>
    obtain ⟨first, names, hfirst, hnames, rfl⟩ := ih
    obtain rfl | hc := Classical.em (c = sep)
    · refine ⟨[], first :: names, List.not_mem_nil, fun name hname => ?_, under_cons⟩
      obtain rfl | hname := List.mem_cons.mp hname
      · exact hfirst
      · exact hnames name hname
    · refine ⟨c :: first, names, fun hmem => ?_, hnames, rfl⟩
      obtain rfl | hmem := List.mem_cons.mp hmem
      · exact hc rfl
      · exact hfirst hmem

/-- What is empty or starts with a separator is a sequence of names. -/
theorem exists_names (root : List α) {rest : List α} (h : rest = [] ∨ rest.head? = some sep) :
    ∃ names, (∀ name ∈ names, sep ∉ name) ∧ under sep root names = root ++ rest := by
  obtain rfl | h := h
  · exact ⟨[], fun _ hname => absurd hname List.not_mem_nil, rfl⟩
  obtain ⟨s, rfl⟩ : ∃ s, rest = sep :: s := ⟨_, (List.cons_head?_tail h).symm⟩
  obtain ⟨first, names, hfirst, hnames, rfl⟩ := exists_under sep s
  refine ⟨first :: names, fun name hname => ?_, under_cons⟩
  obtain rfl | hname := List.mem_cons.mp hname
  · exact hfirst
  · exact hnames name hname

end Levels

end Paths
