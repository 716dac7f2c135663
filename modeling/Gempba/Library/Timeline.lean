import Mathlib.Algebra.BigOperators.Intervals
import Mathlib.Algebra.Order.Ring.Nat
import Mathlib.Algebra.Order.BigOperators.Group.Finset

/-!
# Signals over time and their integrals

A history lists stamped events, the newest first. A signal is a number that
depends on the events so far; at a time it is read off the events stamped up to
this time. Between two events a signal is constant, so its integral grows by
the length of the interval times the signal.
-/

namespace Timeline

set_option autoImplicit false

universe u

variable {E : Type u}

/-- The events stamped at most `x`. -/
def upTo (x : ℕ) (history : List (E × ℕ)) : List (E × ℕ) :=
  history.dropWhile fun e => decide (x < e.2)

def events (history : List (E × ℕ)) : List E := history.map Prod.fst

def signalAt (signal : List E → ℕ) (history : List (E × ℕ)) (x : ℕ) : ℕ :=
  signal (events (upTo x history))

/-- The signal summed over the units of time before `t`. -/
def integral (signal : List E → ℕ) (history : List (E × ℕ)) (t : ℕ) : ℕ :=
  ∑ x ∈ Finset.range t, signalAt signal history x

def StampedBy (history : List (E × ℕ)) (t : ℕ) : Prop := ∀ e ∈ history, e.2 ≤ t

def StampedFrom (history : List (E × ℕ)) (t : ℕ) : Prop := ∀ e ∈ history, t ≤ e.2

/-- Stamps do not decrease. -/
def Ordered : List (E × ℕ) → Prop
  | [] => True
  | e :: history => StampedBy history e.2 ∧ Ordered history

variable {signal other : List E → ℕ} {history later : List (E × ℕ)} {e : E} {s t x : ℕ}

theorem StampedBy.mono (h : StampedBy history s) (hst : s ≤ t) : StampedBy history t :=
  fun e he => (h e he).trans hst

theorem upTo_of_stampedBy (h : StampedBy history x) : upTo x history = history := by
  cases history with
  | nil => rfl
  | cons e history =>
    have hle : e.2 ≤ x := h e List.mem_cons_self
    rw [upTo, List.dropWhile_cons_of_neg]
    rw [decide_eq_true_iff]
    omega

/-- What comes after a time does not matter at it. -/
theorem upTo_append (h : StampedFrom later t) (hx : x < t) :
    upTo x (later ++ history) = upTo x history := by
  induction later with
  | nil => rfl
  | cons e later ih =>
    have hlt : x < e.2 := lt_of_lt_of_le hx (h e List.mem_cons_self)
    have hdrop : upTo x (e :: later ++ history) = upTo x (later ++ history) :=
      List.dropWhile_cons_of_pos (decide_eq_true hlt)
    rw [hdrop]
    exact ih fun e' he' => h e' (List.mem_cons_of_mem e he')

theorem integral_append (h : StampedFrom later t) :
    integral signal (later ++ history) t = integral signal history t := by
  apply Finset.sum_congr rfl
  intro x hx
  rw [signalAt, signalAt, upTo_append h (Finset.mem_range.mp hx)]

theorem integral_mono (hst : s ≤ t) : integral signal history s ≤ integral signal history t := by
  apply Finset.sum_le_sum_of_subset
  intro x hx
  exact Finset.mem_range.mpr (lt_of_lt_of_le (Finset.mem_range.mp hx) hst)

/-- After the last event the signal is constant. -/
theorem integral_of_stampedBy (h : StampedBy history s) (hst : s ≤ t) :
    integral signal history t = integral signal history s + (t - s) * signal (events history) := by
  have hconstant : ∀ x ∈ Finset.Ico s t, signalAt signal history x = signal (events history) := by
    intro x hx
    rw [signalAt, upTo_of_stampedBy (h.mono (Finset.mem_Ico.mp hx).1)]
  rw [integral, ← Finset.sum_range_add_sum_Ico _ hst, Finset.sum_congr rfl hconstant,
    Finset.sum_const, Nat.card_Ico, Nat.nsmul_eq_mul, ← integral]

/-- A new event changes the signal from its stamp on. -/
theorem integral_cons (h : StampedBy history s) (hst : s ≤ t) :
    integral signal ((e, s) :: history) t =
      integral signal history s + (t - s) * signal (e :: events history) := by
  have hcons : StampedBy ((e, s) :: history) s := by
    intro e' he'
    obtain rfl | he' := List.mem_cons.mp he'
    · exact le_rfl
    · exact h e' he'
  have hfrom : StampedFrom [(e, s)] s := by
    intro e' he'
    rw [List.mem_singleton.mp he']
  rw [integral_of_stampedBy hcons hst]
  have happend : integral signal ([(e, s)] ++ history) s = integral signal history s :=
    integral_append hfrom
  rw [List.singleton_append] at happend
  rw [happend]
  rfl

theorem integral_add :
    integral (fun past => signal past + other past) history t =
      integral signal history t + integral other history t :=
  Finset.sum_add_distrib

theorem integral_congr (h : ∀ past, signal past = other past) :
    integral signal history t = integral other history t :=
  Finset.sum_congr rfl fun _ _ => h _

/-- A signal of at most one has at most the elapsed time as its integral. -/
theorem integral_le (h : ∀ past, signal past ≤ 1) : integral signal history t ≤ t := by
  calc integral signal history t ≤ ∑ _x ∈ Finset.range t, 1 :=
        Finset.sum_le_sum fun _ _ => h _
    _ = t := by rw [Finset.sum_const, Finset.card_range, Nat.nsmul_eq_mul, mul_one]

end Timeline
