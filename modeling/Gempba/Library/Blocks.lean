import Mathlib.Data.List.Basic
import Mathlib.Data.Nat.Notation

/-!
# Blocks placed in a buffer

Blocks are written one after the other into a buffer that has room for all of
them. Each is found again at its offset.
-/

namespace Blocks

set_option autoImplicit false

variable {α : Type}

/-- Where the blocks start, the first of them at the given offset. -/
def offsets : ℕ → List (List α) → List ℕ
  | _, [] => []
  | offset, block :: blocks => offset :: offsets (offset + block.length) blocks

def place (buffer : List α) (entry : ℕ × List α) : List α :=
  buffer.take entry.1 ++ entry.2 ++ buffer.drop (entry.1 + entry.2.length)

variable {buffer : List α} {blocks : List (List α)}

theorem place_append (done block rest : List α) :
    place (done ++ rest) (done.length, block) = done ++ block ++ rest.drop block.length := by
  rw [place, List.take_left, ← List.drop_drop, List.drop_left]

/-- The blocks fill the rest of the buffer. -/
theorem foldl_place (done rest : List α) (h : rest.length = blocks.flatten.length) :
    ((offsets done.length blocks).zip blocks).foldl place (done ++ rest) =
      done ++ blocks.flatten := by
  induction blocks generalizing done rest with
  | nil =>
    rw [List.length_eq_zero_iff.mp h]
    rfl
  | cons block blocks ih =>
    rw [List.flatten_cons, List.length_append] at h
    have hlength : done.length + block.length = (done ++ block).length := List.length_append.symm
    have hrest : (rest.drop block.length).length = blocks.flatten.length := by
      rw [List.length_drop]
      omega
    rw [offsets, List.zip_cons_cons, List.foldl_cons, place_append done block rest,
      hlength, ih (done ++ block) (rest.drop block.length) hrest, List.flatten_cons,
      List.append_assoc]

/-- A block is read back at its offset. -/
theorem read_block (done block rest : List α) :
    ((done ++ (block ++ rest)).drop done.length).take block.length = block := by
  rw [List.drop_left, List.take_left]

end Blocks
