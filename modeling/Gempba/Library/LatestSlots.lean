import Mathlib.Data.List.Basic
import Mathlib.Data.Nat.Notation
import Mathlib.Logic.Function.Basic

/-!
# Slots that keep the latest value

Each slot keeps the value published last until a reader takes it; one that is
overwritten before is never seen. The reader goes over the slots in their order
while values are published, and hands over what it has taken before it goes on.
-/

namespace Latest

set_option autoImplicit false

/-- A slot with its history: what was published and handed over, how much had been published when
the reader last set out, and how much when it last came by. -/
structure Slot (α : Type) where
  value : α
  dirty : Bool
  published : List α
  handed : List α
  since : ℕ
  seen : ℕ

namespace Slot

variable {α : Type} {x : Slot α} {a : α}

def blank (a : α) : Slot α := ⟨a, false, [], [], 0, 0⟩

def publish (a : α) (x : Slot α) : Slot α :=
  { x with value := a, dirty := true, published := x.published ++ [a] }

def setOut (x : Slot α) : Slot α := { x with since := x.published.length }

def read (x : Slot α) : Slot α := { x with dirty := false, seen := x.published.length }

def hand (a : α) (x : Slot α) : Slot α := { x with handed := x.handed ++ [a] }

/-- What has been taken is what was published at the reader's visits, the overwritten left out;
`taken` has not been handed over yet. -/
structure Follows (taken : Option α) (x : Slot α) : Prop where
  since_le : x.since ≤ x.published.length
  seen_le : x.seen ≤ x.published.length
  ordered : (x.handed ++ taken.toList).Sublist (x.published.take x.seen)
  latest : (x.handed ++ taken.toList).getLast? = (x.published.take x.seen).getLast?
  dirty : x.dirty = true → ∃ before, x.published = before ++ [x.value] ∧ x.seen ≤ before.length
  clean : x.dirty = false → x.seen = x.published.length

theorem follows_blank (a : α) : (blank a).Follows none := by
  constructor
  · exact Nat.le_refl 0
  · exact Nat.le_refl 0
  · exact List.Sublist.refl []
  · rfl
  · intro hdirty
    cases hdirty
  · intro _
    rfl

theorem Follows.publish {taken : Option α} (h : x.Follows taken) (a : α) :
    (x.publish a).Follows taken := by
  have htake : (x.published ++ [a]).take x.seen = x.published.take x.seen :=
    List.take_append_of_le_length h.seen_le
  have hlength : (x.published ++ [a]).length = x.published.length + 1 := List.length_append
  have hsince := h.since_le
  have hseen := h.seen_le
  constructor
  · change x.since ≤ (x.published ++ [a]).length
    omega
  · change x.seen ≤ (x.published ++ [a]).length
    omega
  · change (x.handed ++ taken.toList).Sublist ((x.published ++ [a]).take x.seen)
    rw [htake]
    exact h.ordered
  · change (x.handed ++ taken.toList).getLast? = ((x.published ++ [a]).take x.seen).getLast?
    rw [htake]
    exact h.latest
  · intro _
    exact ⟨x.published, rfl, h.seen_le⟩
  · intro hclean
    cases hclean

theorem Follows.setOut {taken : Option α} (h : x.Follows taken) : x.setOut.Follows taken :=
  ⟨Nat.le_refl _, h.seen_le, h.ordered, h.latest, h.dirty, h.clean⟩

theorem Follows.read_clean (h : x.Follows none) (hclean : x.dirty = false) :
    x.read.Follows none := by
  have hseen := h.clean hclean
  constructor
  · exact h.since_le
  · exact Nat.le_refl _
  · have hordered := h.ordered
    rwa [hseen] at hordered
  · have hlatest := h.latest
    rwa [hseen] at hlatest
  · intro hdirty
    cases hdirty
  · intro _
    rfl

theorem Follows.read_dirty (h : x.Follows none) (hdirty : x.dirty = true) :
    x.read.Follows (some x.value) := by
  obtain ⟨before, hpublished, hseen⟩ := h.dirty hdirty
  have hhanded : x.handed.Sublist before := by
    have hordered := h.ordered
    rw [hpublished, List.take_append_of_le_length hseen, Option.toList_none,
      List.append_nil] at hordered
    exact hordered.trans (List.take_sublist _ _)
  constructor
  · exact h.since_le
  · exact Nat.le_refl _
  · change (x.handed ++ [x.value]).Sublist (x.published.take x.published.length)
    rw [List.take_length, hpublished]
    exact hhanded.append (List.Sublist.refl _)
  · change (x.handed ++ [x.value]).getLast? = (x.published.take x.published.length).getLast?
    rw [List.take_length, hpublished, List.getLast?_concat, List.getLast?_concat]
  · intro hread
    cases hread
  · intro _
    rfl

theorem Follows.hand (h : x.Follows (some a)) : (x.hand a).Follows none := by
  constructor
  · exact h.since_le
  · exact h.seen_le
  · change (x.handed ++ [a] ++ []).Sublist (x.published.take x.seen)
    rw [List.append_nil]
    exact h.ordered
  · change (x.handed ++ [a] ++ []).getLast? = (x.published.take x.seen).getLast?
    rw [List.append_nil]
    exact h.latest
  · exact h.dirty
  · exact h.clean

theorem Follows.sublist {taken : Option α} (h : x.Follows taken) :
    x.handed.Sublist x.published :=
  ((List.sublist_append_left _ _).trans h.ordered).trans (List.take_sublist _ _)

end Slot

/-- Where the reader is: about to come by slot `i`, or with a value from it. -/
inductive Point (α : Type) where
  | scanning (i : ℕ)
  | handing (i : ℕ) (a : α)

namespace Point

variable {α : Type}

/-- The slots at which the reader has been. -/
def visited : Point α → ℕ
  | .scanning i => i
  | .handing i _ => i + 1

def taken (i : ℕ) : Point α → Option α
  | .scanning _ => none
  | .handing j a => if i = j then some a else none

/-- The steps that the reader has left, with `n` slots in all. -/
def left (n : ℕ) : Point α → ℕ
  | .scanning i => 2 * (n - i) + 1
  | .handing i _ => 2 * (n - (i + 1)) + 2

end Point

abbrev Slots (α : Type) := ℕ → Slot α

namespace Slots

variable {α : Type}

def update (i : ℕ) (f : Slot α → Slot α) (xs : Slots α) : Slots α :=
  Function.update xs i (f (xs i))

def publish (i : ℕ) (a : α) (xs : Slots α) : Slots α := xs.update i (·.publish a)

def setOut (xs : Slots α) : Slots α := fun i => (xs i).setOut

/-- The reader comes by slot `i`. -/
def visit (i : ℕ) (xs : Slots α) : Slots α × Point α :=
  (xs.update i (·.read), if (xs i).dirty then .handing i (xs i).value else .scanning (i + 1))

/-- The reader hands over what it has taken from slot `i`. -/
def hand (i : ℕ) (a : α) (xs : Slots α) : Slots α × Point α :=
  (xs.update i (·.hand a), .scanning (i + 1))

/-- The reader's next step over `n` slots; there is none behind the last. -/
def next (n : ℕ) (p : Point α) (xs : Slots α) : Option (Slots α × Point α) :=
  match p with
  | .scanning i => if i < n then some (xs.visit i) else none
  | .handing i a => some (xs.hand i a)

theorem visited_visit (i : ℕ) (xs : Slots α) : (xs.visit i).2.visited = i + 1 := by
  change Point.visited (if (xs i).dirty then _ else _) = i + 1
  split
  · rfl
  · rfl

theorem left_visit {n i : ℕ} (hi : i < n) (xs : Slots α) :
    (xs.visit i).2.left n + 1 ≤ 2 * (n - i) + 1 := by
  change Point.left n (if (xs i).dirty then _ else _) + 1 ≤ _
  split
  · rw [Point.left]
    omega
  · rw [Point.left]
    omega

section Next

variable {n : ℕ} {p : Point α} {xs : Slots α} {next : Slots α × Point α}

/-- A step is a visit at a slot or the hand-over of a value. -/
theorem next_cases (h : xs.next n p = some next) :
    (∃ i < n, p = .scanning i ∧ next = xs.visit i) ∨
      ∃ i a, p = .handing i a ∧ next = xs.hand i a := by
  cases p with
  | scanning i =>
    rw [Slots.next] at h
    split at h
    · rename_i hi
      exact .inl ⟨i, hi, rfl, (Option.some.inj h).symm⟩
    · cases h
  | handing i a => exact .inr ⟨i, a, rfl, (Option.some.inj h).symm⟩

theorem next_eq_none (h : xs.next n p = none) : ∃ i, p = .scanning i ∧ n ≤ i := by
  cases p with
  | scanning i =>
    rw [Slots.next] at h
    split at h
    · cases h
    · rename_i hi
      exact ⟨i, rfl, Nat.le_of_not_lt hi⟩
  | handing i a => cases h

theorem visited_next (h : xs.next n p = some next) (hp : p.visited ≤ n) :
    next.2.visited ≤ n := by
  obtain ⟨i, hi, rfl, rfl⟩ | ⟨i, a, rfl, rfl⟩ := next_cases h
  · rw [visited_visit]
    exact hi
  · exact hp

theorem left_next (h : xs.next n p = some next) : next.2.left n + 1 ≤ p.left n := by
  obtain ⟨i, hi, rfl, rfl⟩ | ⟨i, a, rfl, rfl⟩ := next_cases h
  · exact left_visit hi xs
  · change 2 * (n - (i + 1)) + 1 + 1 ≤ 2 * (n - (i + 1)) + 2
    omega

end Next

/-- The reader has seen, at every slot it has been at, at least what was there when it set out. -/
structure Follows (p : Point α) (xs : Slots α) : Prop where
  slot : ∀ i, (xs i).Follows (p.taken i)
  visited : ∀ i < p.visited, (xs i).since ≤ (xs i).seen

variable {xs : Slots α} {p : Point α}

theorem Follows.update (h : xs.Follows p) {p' : Point α} (i : ℕ) (f : Slot α → Slot α)
    (hi : (f (xs i)).Follows (p'.taken i)) (hother : ∀ j ≠ i, p'.taken j = p.taken j)
    (hvisited : ∀ j < p'.visited, j ≠ i → j < p.visited)
    (hseen : i < p'.visited → (f (xs i)).since ≤ (f (xs i)).seen) : (xs.update i f).Follows p' := by
  constructor
  · intro j
    obtain rfl | hj := eq_or_ne j i
    · rw [Slots.update, Function.update_self]
      exact hi
    · rw [Slots.update, Function.update_of_ne hj, hother j hj]
      exact h.slot j
  · intro j hvisit
    obtain rfl | hj := eq_or_ne j i
    · rw [Slots.update, Function.update_self]
      exact hseen hvisit
    · rw [Slots.update, Function.update_of_ne hj]
      exact h.visited j (hvisited j hvisit hj)

theorem Follows.publish (h : xs.Follows p) (i : ℕ) (a : α) : (xs.publish i a).Follows p :=
  h.update i _ ((h.slot i).publish a) (fun _ _ => rfl) (fun _ hj _ => hj) (h.visited i)

theorem Follows.setOut {n : ℕ} (h : xs.Follows (.scanning n)) :
    xs.setOut.Follows (.scanning 0) := by
  constructor
  · intro i
    exact (h.slot i).setOut
  · intro i hi
    exact absurd hi (Nat.not_lt_zero i)

theorem Follows.visit {i : ℕ} (h : xs.Follows (.scanning i)) :
    (xs.visit i).1.Follows (xs.visit i).2 := by
  have hread : ∀ p' : Point α, p'.visited = i + 1 → (xs i).read.Follows (p'.taken i) →
      (∀ j ≠ i, p'.taken j = none) → (xs.update i (·.read)).Follows p' := by
    intro p' hvisited hslot hother
    refine h.update i _ hslot hother ?_ fun _ => (h.slot i).since_le
    intro j hj hne
    change j < i
    omega
  change (xs.update i (·.read)).Follows (if (xs i).dirty then _ else _)
  split
  · rename_i hdirty
    refine hread _ rfl ?_ fun j hj => if_neg hj
    rw [Point.taken, if_pos rfl]
    exact (h.slot i).read_dirty hdirty
  · rename_i hclean
    exact hread _ rfl ((h.slot i).read_clean (Bool.eq_false_iff.mpr hclean)) fun _ _ => rfl

theorem Follows.hand {i : ℕ} {a : α} (h : xs.Follows (.handing i a)) :
    (xs.hand i a).1.Follows (xs.hand i a).2 := by
  have hslot := h.slot i
  rw [Point.taken, if_pos rfl] at hslot
  refine h.update i _ hslot.hand ?_ (fun _ hj _ => hj) (h.visited i)
  intro j hj
  exact (if_neg hj).symm

theorem Follows.next {n : ℕ} {next : Slots α × Point α} (h : xs.Follows p)
    (hnext : xs.next n p = some next) : next.1.Follows next.2 := by
  obtain ⟨i, _, rfl, rfl⟩ | ⟨i, a, rfl, rfl⟩ := next_cases hnext
  · exact h.visit
  · exact h.hand

end Slots

end Latest
