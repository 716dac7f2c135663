import Gempba.Library.Machine
import Mathlib.Data.Nat.Notation

/-!
# A channel with counters at both ends

Messages arrive in the order sent. The receiver counts what it has received,
the sender what it has sent; told the sender's count, the receiver can wait for
exactly the messages that are still in flight.
-/

namespace Transition

universe u v

structure Channel (μ : Type u) where
  inFlight : List μ
  received : ℕ

namespace Channel

variable {μ : Type u} {ε : Type v} {c c' : Channel μ} {sent : ℕ}

def initial : Channel μ := ⟨[], 0⟩

def send (ms : List μ) (c : Channel μ) : Channel μ := { c with inFlight := c.inFlight ++ ms }

/-- The receipt of the oldest message, if it is one the receiver expects. -/
def receive (expected : μ → Bool) (c : Channel μ) : Option (Channel μ) :=
  match c.inFlight with
  | [] => none
  | m :: ms => if expected m then some ⟨ms, c.received + 1⟩ else none

/-- Receives until `sent` messages have come, and waits when the channel is empty before. More
messages than were sent are an error. -/
def drainFrom (tooMany : ε) (sent : ℕ) : List μ → ℕ → Outcome ε (Channel μ)
  | [], received =>
    if received < sent then .blocked
    else if received ≠ sent then .raised tooMany
    else .moved ⟨[], received⟩
  | m :: ms, received =>
    if received < sent then drainFrom tooMany sent ms (received + 1)
    else if received ≠ sent then .raised tooMany
    else .moved ⟨m :: ms, received⟩

def drain (tooMany : ε) (sent : ℕ) (c : Channel μ) : Outcome ε (Channel μ) :=
  drainFrom tooMany sent c.inFlight c.received

/-- What was sent has been received or is in flight. -/
def Counted (sent : ℕ) (c : Channel μ) : Prop := sent = c.received + c.inFlight.length

theorem Counted.send (h : c.Counted sent) (ms : List μ) :
    (c.send ms).Counted (sent + ms.length) := by
  rw [Counted] at h ⊢
  simp only [Channel.send, List.length_append]
  omega

theorem Counted.receive (h : c.Counted sent) {expected : μ → Bool}
    (hc : c.receive expected = some c') : c'.Counted sent := by
  rw [Counted] at h ⊢
  simp only [Channel.receive] at hc
  split at hc
  · cases hc
  · rename_i m ms hmessages
    split at hc
    · cases hc
      rw [hmessages, List.length_cons] at h
      simp only
      omega
    · cases hc

/-- The receiver neither waits nor complains, and leaves nothing behind. -/
theorem Counted.drain (h : c.Counted sent) (tooMany : ε) :
    c.drain tooMany sent = .moved ⟨[], sent⟩ := by
  obtain ⟨messages, received⟩ := c
  simp only [Counted, Channel.drain] at h ⊢
  induction messages generalizing received with
  | nil =>
    have hsent : received = sent := h.symm
    rw [drainFrom, if_neg (by omega), if_neg (by omega), hsent]
  | cons m ms ih =>
    rw [List.length_cons] at h
    rw [drainFrom, if_pos (by omega)]
    exact ih (received + 1) (by omega)

end Channel

end Transition
