import Mathlib.Data.List.TakeWhile

/-!
# The next-process vector and its left shift

The vector holds the assigned ranks on its left and is filled up with `-1`,
written `none`. The shift walks over neighbouring cells and stops at the
first `-1`; the last cell is cleared only when its old value has just been
copied to the left.
-/

namespace Gempba

set_option autoImplicit false

variable {ρ : Type}

/-- The loop of `shift_left`, from the current cell to the end of the vector. -/
def shiftLeftLoop : List (Option ρ) → List (Option ρ)
  | [] => []
  | [a] => [a]
  | [a, b] =>
    if a = none then [a, b]
    -- last iteration: the right cell is cleared unless it already is `-1`
    else if b ≠ none then [b, none] else [b, b]
  | a :: b :: c :: rest =>
    if a = none then a :: b :: c :: rest else b :: shiftLeftLoop (b :: c :: rest)

/-- `none` is the throw on an empty vector. -/
def shiftLeft (v : List (Option ρ)) : Option (List (Option ρ)) :=
  if v.isEmpty then none else some (shiftLeftLoop v)

/-- The vector of the given ranks, filled up with `k` cells of `-1`. -/
def packed (xs : List ρ) (k : ℕ) : List (Option ρ) := xs.map some ++ List.replicate k none

/-- The ranks before the first `-1`. -/
def pendingRanks (v : List (Option ρ)) : List ρ := (v.takeWhile Option.isSome).filterMap id

@[simp] theorem pendingRanks_packed (xs : List ρ) (k : ℕ) : pendingRanks (packed xs k) = xs := by
  cases xs with
  | nil => cases k <;> simp [pendingRanks, packed, List.replicate_succ]
  | cons x xs => simp [pendingRanks, packed]

@[simp] theorem length_packed (xs : List ρ) (k : ℕ) : (packed xs k).length = xs.length + k := by
  simp [packed]

theorem head?_join_packed (xs : List ρ) (k : ℕ) : (packed xs k).head?.join = xs.head? := by
  cases xs with
  | nil => cases k <;> simp [packed, List.replicate_succ]
  | cons x xs => simp [packed]

theorem shiftLeftLoop_nones (k : ℕ) :
    shiftLeftLoop (List.replicate k (none : Option ρ)) = List.replicate k none := by
  match k with
  | 0 => rfl
  | 1 => rfl
  | 2 => simp [shiftLeftLoop, List.replicate_succ]
  | k + 3 => simp [shiftLeftLoop, List.replicate_succ]

/-- On a vector of at least two cells the shift drops the first rank. -/
theorem shiftLeftLoop_packed (x : ρ) (xs : List ρ) (k : ℕ) (h : 1 ≤ xs.length + k) :
    shiftLeftLoop (packed (x :: xs) k) = packed xs (k + 1) := by
  induction xs generalizing x with
  | nil =>
    match k with
    | 0 => simp at h
    | 1 => simp [packed, shiftLeftLoop, List.replicate_succ]
    | k + 2 =>
      have hnones := shiftLeftLoop_nones (ρ := ρ) (k + 2)
      simp only [List.replicate_succ] at hnones
      simp only [packed, List.map_cons, List.map_nil, List.cons_append, List.nil_append,
        List.replicate_succ, shiftLeftLoop]
      simpa using hnones
  | cons y ys ih =>
    match ys, k with
    | [], 0 => simp [packed, shiftLeftLoop]
    | [], k + 1 =>
      have hrest := ih y (by simp)
      simp only [packed, List.map_cons, List.map_nil, List.cons_append, List.nil_append,
        List.replicate_succ] at hrest ⊢
      simp only [shiftLeftLoop, reduceCtorEq, if_false]
      rw [hrest]
    | z :: zs, k =>
      have hrest := ih y (by simp; omega)
      simp only [packed, List.map_cons, List.cons_append] at hrest ⊢
      simp only [shiftLeftLoop, reduceCtorEq, if_false]
      rw [hrest]

theorem shiftLeft_packed {xs : List ρ} {k : ℕ} (h : 2 ≤ xs.length + k) :
    shiftLeft (packed xs k) = some (packed xs.tail (xs.length + k - xs.tail.length)) := by
  have hne : (packed xs k).isEmpty = false := by
    rw [List.isEmpty_eq_false_iff, ← List.length_pos_iff, length_packed]
    omega
  simp only [shiftLeft, hne, Bool.false_eq_true, if_false]
  congr 1
  cases xs with
  | nil => simpa [packed] using shiftLeftLoop_nones (ρ := ρ) k
  | cons x xs =>
    rw [shiftLeftLoop_packed x xs k (by simp at h; omega)]
    congr 1
    simp
    omega

end Gempba
