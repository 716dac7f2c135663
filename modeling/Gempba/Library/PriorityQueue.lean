import Mathlib.Data.Multiset.AddSub
import Mathlib.Order.Lattice

/-!
# Queues that pop a maximal element

`take k` pops `k` times, or until the queue is empty. What it pops comes out
in non-increasing priority, and nothing that stays has a higher one.
-/

universe u v w

set_option autoImplicit false

/-- A queue of type `Q` over elements `τ` with priorities in `P`. -/
structure PriorityQueue (Q : Type u) (τ : Type v) (P : Type w) [LinearOrder P] where
  contents : Q → Multiset τ
  priority : τ → P
  pop : Q → Option (τ × Q)
  pop_none : ∀ q, pop q = none → contents q = 0
  pop_some : ∀ q x rest, pop q = some (x, rest) → contents q = x ::ₘ contents rest
  pop_max : ∀ q x rest, pop q = some (x, rest) → ∀ y ∈ contents rest, priority y ≤ priority x

namespace PriorityQueue

variable {Q : Type u} {τ : Type v} {P : Type w} [LinearOrder P] (pq : PriorityQueue Q τ P)

def take : ℕ → Q → List τ × Q
  | 0, q => ([], q)
  | k + 1, q =>
    match pq.pop q with
    | none => ([], q)
    | some (x, rest) => (x :: (take k rest).1, (take k rest).2)

variable {pq} {q rest : Q} {x : τ}

theorem take_none (h : pq.pop q = none) (k : ℕ) : pq.take k q = ([], q) := by
  cases k with
  | zero => rfl
  | succ k => rw [take, h]

theorem take_some (h : pq.pop q = some (x, rest)) (k : ℕ) :
    pq.take (k + 1) q = (x :: (pq.take k rest).1, (pq.take k rest).2) := by
  rw [take, h]

variable (pq)

/-- Nothing is lost and nothing is made up. -/
theorem take_contents (k : ℕ) (q : Q) :
    ((pq.take k q).1 : Multiset τ) + pq.contents (pq.take k q).2 = pq.contents q := by
  induction k generalizing q with
  | zero => exact Multiset.zero_add _
  | succ k ih =>
    cases hpop : pq.pop q with
    | none =>
      rw [take_none hpop]
      exact Multiset.zero_add _
    | some top =>
      obtain ⟨x, rest⟩ := top
      rw [take_some hpop, pq.pop_some q x rest hpop, ← ih rest, ← Multiset.cons_add,
        Multiset.cons_coe]

theorem take_length (k : ℕ) (q : Q) :
    (pq.take k q).1.length = min k (pq.contents q).card := by
  induction k generalizing q with
  | zero => exact (Nat.zero_min _).symm
  | succ k ih =>
    cases hpop : pq.pop q with
    | none =>
      rw [take_none hpop, pq.pop_none q hpop]
      exact (Nat.min_zero _).symm
    | some top =>
      obtain ⟨x, rest⟩ := top
      rw [take_some hpop, List.length_cons, ih rest, pq.pop_some q x rest hpop,
        Multiset.card_cons, Nat.succ_min_succ]

/-- What is popped stems from the queue. -/
theorem mem_contents_of_mem_take {k : ℕ} {q : Q} {x : τ} (h : x ∈ (pq.take k q).1) :
    x ∈ pq.contents q := by
  rw [← pq.take_contents k q]
  exact Multiset.mem_add.mpr (Or.inl h)

theorem take_pairwise (k : ℕ) (q : Q) :
    (pq.take k q).1.Pairwise fun x y => pq.priority y ≤ pq.priority x := by
  induction k generalizing q with
  | zero => exact List.Pairwise.nil
  | succ k ih =>
    cases hpop : pq.pop q with
    | none =>
      rw [take_none hpop]
      exact List.Pairwise.nil
    | some top =>
      obtain ⟨x, rest⟩ := top
      rw [take_some hpop]
      refine List.pairwise_cons.mpr ⟨?_, ih rest⟩
      intro y hy
      exact pq.pop_max q x rest hpop y (pq.mem_contents_of_mem_take hy)

/-- What stays has no higher priority than anything popped. -/
theorem take_max (k : ℕ) (q : Q) :
    ∀ x ∈ (pq.take k q).1, ∀ y ∈ pq.contents (pq.take k q).2, pq.priority y ≤ pq.priority x := by
  induction k generalizing q with
  | zero =>
    intro x hx
    exact absurd hx List.not_mem_nil
  | succ k ih =>
    cases hpop : pq.pop q with
    | none =>
      rw [take_none hpop]
      intro x hx
      exact absurd hx List.not_mem_nil
    | some top =>
      obtain ⟨z, rest⟩ := top
      rw [take_some hpop]
      intro x hx y hy
      obtain rfl | hx := List.mem_cons.mp hx
      · apply pq.pop_max q x rest hpop y
        rw [← pq.take_contents k rest]
        exact Multiset.mem_add.mpr (Or.inr hy)
      · exact ih rest x hx y hy

/-- A queue kept as a list in the order in which it is popped. -/
def sorted {τ : Type v} {P : Type w} [LinearOrder P] (priority : τ → P) :
    PriorityQueue { l : List τ // l.Pairwise fun x y => priority y ≤ priority x } τ P where
  contents q := q.1
  priority := priority
  pop q := match q with
    | ⟨[], _⟩ => none
    | ⟨x :: rest, h⟩ => some (x, ⟨rest, (List.pairwise_cons.mp h).2⟩)
  pop_none q h := by
    obtain ⟨_ | ⟨x, rest⟩, hq⟩ := q
    · rfl
    · cases h
  pop_some q x rest h := by
    obtain ⟨_ | ⟨y, tail⟩, hq⟩ := q
    · cases h
    · cases h
      rfl
  pop_max q x rest h y hy := by
    obtain ⟨_ | ⟨z, tail⟩, hq⟩ := q
    · cases h
    · cases h
      exact (List.pairwise_cons.mp hq).1 y hy

end PriorityQueue
