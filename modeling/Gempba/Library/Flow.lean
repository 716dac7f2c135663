import Gempba.Library.Machine
import Mathlib.Algebra.BigOperators.Group.Finset.Piecewise
import Mathlib.Data.Fintype.Basic

/-!
# Messages in flight, and totals over their history

A flow says what each step of a machine sends and receives. Whatever was sent
has been received or is still in flight, so that a total kept by the senders
and one kept by the receivers differ by what is in flight.
-/

namespace Transition

universe u v w x

section Tally

variable {μ κ : Type*}

/-- The total weight of the messages that meet `p`. -/
def tally (weight : μ → ℕ) (p : μ → Prop) [DecidablePred p] (ms : Multiset μ) : ℕ :=
  ((ms.filter p).map weight).sum

variable {weight : μ → ℕ} {p : μ → Prop} [DecidablePred p]

@[simp] theorem tally_zero : tally weight p 0 = 0 := rfl

theorem tally_cons (m : μ) (ms : Multiset μ) :
    tally weight p (m ::ₘ ms) = (if p m then weight m else 0) + tally weight p ms := by
  cases hp : decide (p m) with
  | true =>
    have hm : p m := of_decide_eq_true hp
    rw [tally, Multiset.filter_cons_of_pos _ hm, Multiset.map_cons, Multiset.sum_cons, if_pos hm,
      tally]
  | false =>
    have hm : ¬ p m := of_decide_eq_false hp
    rw [tally, Multiset.filter_cons_of_neg _ hm, if_neg hm, Nat.zero_add, tally]

theorem tally_add (ms ns : Multiset μ) :
    tally weight p (ms + ns) = tally weight p ms + tally weight p ns := by
  rw [tally, Multiset.filter_add, Multiset.map_add, Multiset.sum_add, tally, tally]

theorem tally_eq_zero {ms : Multiset μ} (h : ∀ m ∈ ms, ¬ p m) : tally weight p ms = 0 := by
  rw [tally, Multiset.filter_eq_nil.mpr h, Multiset.map_zero, Multiset.sum_zero]

theorem tally_eq_zero_of_count {ms : Multiset μ} (h : tally (fun _ => 1) p ms = 0) :
    tally weight p ms = 0 := by
  refine tally_eq_zero fun m hm hp => ?_
  obtain ⟨rest, rfl⟩ := Multiset.exists_cons_of_mem hm
  rw [tally_cons, if_pos hp] at h
  omega

theorem sum_tally [Fintype κ] [DecidableEq κ] (key : μ → κ) (ms : Multiset μ) :
    ∑ k, tally weight (fun m => p m ∧ key m = k) ms = tally weight p ms := by
  induction ms using Multiset.induction_on with
  | empty => simp
  | cons m ms ih =>
    simp only [tally_cons, Finset.sum_add_distrib, ih]
    congr 1
    cases hp : decide (p m) with
    | true => simp [of_decide_eq_true hp]
    | false => simp [of_decide_eq_false hp]

theorem sum_tally_key [Fintype κ] [DecidableEq κ] (key : μ → κ) (ms : Multiset μ) :
    ∑ k, tally weight (fun m => key m = k) ms = (ms.map weight).sum := by
  have hsplit : ∑ k, tally weight (fun m => True ∧ key m = k) ms =
      tally weight (fun _ => True) ms := sum_tally key ms
  simpa [tally] using hsplit

end Tally

variable {σ : Type u} {ι : Type v} {ε : Type w} {μ : Type x}

/-- The lists are in the order in which the step does them, the receipts first. -/
structure Flow (M : Machine σ ι ε) (μ : Type x) where
  inFlight : σ → Multiset μ
  receives : ι → List μ
  sends : ι → σ → σ → List μ
  moves : ∀ l s t, M.step l s = .moved t →
    ∃ rest, inFlight s = receives l + rest ∧ inFlight t = sends l s t + rest

namespace Flow

variable {M : Machine σ ι ε} (F : Flow M μ)

/-- What was sent is in flight or has been received. -/
def Conserved (s : σ) (sent received : Multiset μ) : Prop := sent = received + F.inFlight s

theorem Conserved.step {F : Flow M μ} {s t : σ} {sent received : Multiset μ}
    (h : F.Conserved s sent received) {l : ι} (hst : M.step l s = .moved t) :
    F.Conserved t (F.sends l s t + sent) (F.receives l + received) := by
  obtain ⟨rest, hs, ht⟩ := F.moves l s t hst
  calc
    (F.sends l s t : Multiset μ) + sent
      = F.sends l s t + (received + (F.receives l + rest)) := by rw [h, hs]
    _ = F.receives l + received + (F.sends l s t + rest) := by
      rw [← add_assoc received, add_comm received, add_left_comm]
    _ = F.receives l + received + F.inFlight t := by rw [ht]

theorem Conserved.tally {F : Flow M μ} {s : σ} {sent received : Multiset μ}
    (h : F.Conserved s sent received) (weight : μ → ℕ) (p : μ → Prop) [DecidablePred p] :
    tally weight p sent = tally weight p received + tally weight p (F.inFlight s) := by
  rw [h, tally_add]

end Flow

end Transition
