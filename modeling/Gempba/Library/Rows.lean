import Mathlib.Data.Fin.Basic
import Mathlib.Data.List.Basic
import Mathlib.Logic.Function.Basic

/-!
# Columns read row by row

A table has a column for each of a number of parties; its entries are listed
row by row. Columns may grow ahead of the list.
-/

namespace Rows

set_option autoImplicit false

variable {α : Type} {n : ℕ} {entries : List α} {column : Fin (n + 1) → List α}

/-- The entries listed are those of the columns. -/
def Lists (entries : List α) (column : Fin (n + 1) → List α) : Prop :=
  ∀ j (r : Fin (n + 1)), (n + 1) * j + r < entries.length →
    entries[(n + 1) * j + r]? = (column r)[j]?

theorem index_inj {j k r i : ℕ} (hr : r < n + 1) (hi : i < n + 1)
    (h : (n + 1) * j + r = (n + 1) * k + i) : j = k ∧ r = i := by
  have hmod : r = i := by
    have hboth := congrArg (· % (n + 1)) h
    simp only [Nat.mul_add_mod, Nat.mod_eq_of_lt hr, Nat.mod_eq_of_lt hi] at hboth
    exact hboth
  subst hmod
  exact ⟨Nat.mul_left_cancel (Nat.succ_pos n) (Nat.add_right_cancel h), rfl⟩

theorem lists_nil (column : Fin (n + 1) → List α) : Lists [] column :=
  fun _ _ h => absurd h (Nat.not_lt_zero _)

theorem Lists.grow (h : Lists entries column) (r : Fin (n + 1)) (a : α) :
    Lists entries (Function.update column r (column r ++ [a])) := by
  intro j r' hlt
  have hentry := h j r' hlt
  obtain rfl | hne := eq_or_ne r' r
  · rw [Function.update_self, hentry, List.getElem?_append_left]
    rw [List.getElem?_eq_getElem hlt] at hentry
    exact (List.getElem?_eq_some_iff.mp hentry.symm).1
  · rw [Function.update_of_ne hne]
    exact hentry

theorem Lists.push (h : Lists entries column) {k : ℕ} {r : Fin (n + 1)} {a : α}
    (hlength : entries.length = (n + 1) * k + r) (ha : (column r)[k]? = some a) :
    Lists (entries ++ [a]) column := by
  intro j r' hlt
  rw [List.length_append, List.length_singleton] at hlt
  obtain hlt | heq := Nat.lt_or_eq_of_le (Nat.le_of_lt_succ hlt)
  · rw [List.getElem?_append_left hlt]
    exact h j r' hlt
  · rw [heq, List.getElem?_concat_length]
    rw [hlength] at heq
    obtain ⟨rfl, hr⟩ := index_inj r'.isLt r.isLt heq
    obtain rfl := Fin.ext hr
    exact ha.symm

end Rows
