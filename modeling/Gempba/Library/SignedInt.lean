import Mathlib.Algebra.Group.Nat.Defs
import Mathlib.Algebra.Order.Group.Int
import Mathlib.Data.Nat.Notation

/-!
# Signed numbers of 32 bits

A number that is out of range is taken modulo `2 ^ 32`.
-/

namespace SignedInt

set_option autoImplicit false

def wrap (z : ℤ) : ℤ := z.bmod (2 ^ 32)

theorem wrap_wrap_add (x y : ℤ) : wrap (wrap x + y) = wrap (x + y) := Int.bmod_add_bmod

theorem wrap_of_lt {n : ℕ} (h : n < 2 ^ 31) : wrap n = n := by
  rw [wrap]
  apply Int.bmod_eq_of_le <;> omega

theorem wrap_lt (z : ℤ) : wrap z < 2 ^ 31 := by
  have hlt := Int.bmod_lt (x := z) (m := 2 ^ 32) (by decide)
  rw [wrap]
  omega

theorem wrap_eq_self_iff {n : ℕ} : wrap n = n ↔ n < 2 ^ 31 := by
  constructor
  · intro h
    have hlt := wrap_lt n
    omega
  · exact wrap_of_lt

/-- The upper half of the range stands for the negative numbers. -/
theorem wrap_natCast (n : ℕ) :
    wrap n = (n % 2 ^ 32 : ℕ) - if n % 2 ^ 32 < 2 ^ 31 then (0 : ℤ) else 2 ^ 32 := by
  have hmod : (n : ℤ) % (2 ^ 32 : ℕ) = (n % 2 ^ 32 : ℕ) := (Int.natCast_mod n _).symm
  rw [wrap, Int.bmod_def, hmod]
  split <;> split <;> omega

end SignedInt
