import Mathlib.Data.List.Basic
import Mathlib.Data.Nat.Notation

/-!
# Objects copied as bytes

An object lies in memory as its members, with gaps between them whose bytes
have no meaning. Copied as bytes and back, the members are what they were,
whatever fills the gaps.
-/

namespace MemoryImage

set_option autoImplicit false

variable {β α : Type}

structure Member (β α : Type) where
  width : ℕ
  bytes : α → List β
  store : List β → α → α
  length_bytes : ∀ a, (bytes a).length = width

inductive Part (β α : Type) where
  | member (m : Member β α)
  | gap (width : ℕ)

namespace Part

def width : Part β α → ℕ
  | member m => m.width
  | gap width => width

/-- The bytes of the part at an offset; those of a gap are given by `fill`. -/
def bytes (fill : ℕ → β) (offset : ℕ) (a : α) : Part β α → List β
  | member m => m.bytes a
  | gap width => (List.range width).map fun i => fill (offset + i)

def store (data : List β) (a : α) : Part β α → α
  | member m => m.store data a
  | gap _ => a

/-- The member of `b` becomes that of `a`. -/
def assign (a b : α) : Part β α → α
  | member m => m.store (m.bytes a) b
  | gap _ => b

theorem length_bytes (fill : ℕ → β) (offset : ℕ) (a : α) (p : Part β α) :
    (p.bytes fill offset a).length = p.width := by
  cases p with
  | member m => exact m.length_bytes a
  | gap width => rw [bytes, Part.width, List.length_map, List.length_range]

theorem store_bytes (fill : ℕ → β) (offset : ℕ) (a b : α) (p : Part β α) :
    p.store (p.bytes fill offset a) b = p.assign a b := by
  cases p with
  | member m => rfl
  | gap width => rfl

end Part

/-- The size of an object with these parts. -/
def size : List (Part β α) → ℕ
  | [] => 0
  | p :: parts => p.width + size parts

def image (fill : ℕ → β) (offset : ℕ) : List (Part β α) → α → List β
  | [], _ => []
  | p :: parts, a => p.bytes fill offset a ++ image fill (offset + p.width) parts a

/-- The bytes copied over an object. -/
def restore : List (Part β α) → List β → α → α
  | [], _, a => a
  | p :: parts, data, a => restore parts (data.drop p.width) (p.store (data.take p.width) a)

/-- The members of one object assigned to another. -/
def assign (a : α) : List (Part β α) → α → α
  | [], b => b
  | p :: parts, b => assign a parts (p.assign a b)

theorem length_image (fill : ℕ → β) (offset : ℕ) (parts : List (Part β α)) (a : α) :
    (image fill offset parts a).length = size parts := by
  induction parts generalizing offset with
  | nil => rfl
  | cons p parts ih => rw [image, List.length_append, Part.length_bytes, ih, size]

/-- Copying the image of `a` over `b` assigns the members of `a`. -/
theorem restore_image (fill : ℕ → β) (offset : ℕ) (parts : List (Part β α)) (a b : α)
    (rest : List β) :
    restore parts (image fill offset parts a ++ rest) b = assign a parts b := by
  induction parts generalizing offset b with
  | nil => rfl
  | cons p parts ih =>
    have hlength : (p.bytes fill offset a).length = p.width := p.length_bytes fill offset a
    rw [image, restore, assign, List.append_assoc, List.take_left' hlength,
      List.drop_left' hlength, Part.store_bytes, ih]

/-- The objects of an array, one after the other. -/
def images (fill : ℕ → β) (parts : List (Part β α)) : ℕ → List α → List β
  | _, [] => []
  | offset, a :: as =>
    image fill offset parts a ++ images fill parts (offset + size parts) as

/-- The bytes copied over an array of `n` fresh objects. -/
def restoreAll (parts : List (Part β α)) (fresh : α) : ℕ → List β → List α
  | 0, _ => []
  | n + 1, data =>
    restore parts data fresh :: restoreAll parts fresh n (data.drop (size parts))

theorem length_images (fill : ℕ → β) (parts : List (Part β α)) (offset : ℕ) (as : List α) :
    (images fill parts offset as).length = as.length * size parts := by
  induction as generalizing offset with
  | nil => rw [images, List.length_nil, List.length_nil, Nat.zero_mul]
  | cons a as ih =>
    rw [images, List.length_append, length_image, ih, List.length_cons, Nat.succ_mul,
      Nat.add_comm]

theorem restoreAll_images (fill : ℕ → β) {parts : List (Part β α)} {fresh : α}
    (hassign : ∀ a, assign a parts fresh = a) (offset : ℕ) (as : List α) :
    restoreAll parts fresh as.length (images fill parts offset as) = as := by
  induction as generalizing offset with
  | nil => rfl
  | cons a as ih =>
    have hlength : (image fill offset parts a).length = size parts := length_image ..
    rw [List.length_cons, restoreAll, images, restore_image, hassign, List.drop_left' hlength, ih]

end MemoryImage
