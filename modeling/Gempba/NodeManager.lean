import Gempba.Schedulers.Messages

/-!
# The node manager: best score and result of one process

The pool threads offer results, the funnel thread overwrites a score that the
center has improved on. Each method holds the local mutex, so that a call is
one step.
-/

namespace Gempba

set_option autoImplicit false

structure NodeManager where
  goal : Goal
  score : Score
  /-- `none` as long as `m_result` holds a `std::any`. -/
  result : Option TaskPacket
  deriving DecidableEq, Repr

namespace NodeManager

def make : NodeManager := ⟨.MAXIMISE, .makeInt 0x80000000, none⟩

def setGoal (model : DataModel) (goal : Goal) (kind : ScoreType) (m : NodeManager) :
    Option NodeManager :=
  (getDefaultScore model goal kind).map fun score => { m with goal, score }

def shouldUpdateResult (newScore : Score) (m : NodeManager) : Bool :=
  shouldUpdate m.goal m.score newScore

/-- The overload with a serializer; `packet` is the serialized result. -/
def tryUpdateResult (newScore : Score) (packet : TaskPacket) (m : NodeManager) :
    Bool × NodeManager :=
  if m.shouldUpdateResult newScore then
    (true, { m with score := newScore, result := some packet })
  else (false, m)

def tryUpdateScoreAndInvalidateResult (newScore : Score) (m : NodeManager) : Bool × NodeManager :=
  if m.shouldUpdateResult newScore then (true, { m with score := newScore, result := some [] })
  else (false, m)

def getResultBytes (m : NodeManager) : Option Result := m.result.map fun packet => ⟨m.score, packet⟩

/-- What `send_final_solution_to_center` sends. -/
def finalSolution (m : NodeManager) : Report :=
  match m.getResultBytes with
  | none => none
  | some r => if r.packet.isEmpty then none else some r

variable {m : NodeManager}

theorem finalSolution_eq_some {r : Result} :
    m.finalSolution = some r ↔ m.result = some r.packet ∧ r.packet ≠ [] ∧ r.score = m.score := by
  unfold finalSolution getResultBytes
  cases hm : m.result with
  | none => simp
  | some packet =>
    obtain ⟨score, p⟩ := r
    cases packet with
    | nil =>
      simp only [Option.map_some, List.isEmpty_nil, if_true, reduceCtorEq, Option.some.injEq,
        false_iff]
      rintro ⟨rfl, hne, _⟩
      exact hne rfl
    | cons b packet =>
      simp only [Option.map_some, List.isEmpty_cons, Bool.false_eq_true, if_false,
        Option.some.injEq, Result.mk.injEq]
      constructor
      · rintro ⟨rfl, rfl⟩
        exact ⟨rfl, by simp, rfl⟩
      · rintro ⟨rfl, _, rfl⟩
        exact ⟨rfl, rfl⟩

theorem score_of_finalSolution {r : Result} (h : m.finalSolution = some r) : r.score = m.score :=
  (finalSolution_eq_some.mp h).2.2

theorem finalSolution_tryUpdateResult {newScore : Score} {packet : TaskPacket}
    (hpacket : packet ≠ []) (h : m.shouldUpdateResult newScore = true) :
    (m.tryUpdateResult newScore packet).2.finalSolution = some ⟨newScore, packet⟩ := by
  rw [tryUpdateResult, if_pos h, finalSolution_eq_some]
  exact ⟨rfl, hpacket, rfl⟩

theorem finalSolution_tryUpdateScoreAndInvalidateResult {newScore : Score}
    (h : m.shouldUpdateResult newScore = true) :
    (m.tryUpdateScoreAndInvalidateResult newScore).2.finalSolution = none := by
  rw [tryUpdateScoreAndInvalidateResult, if_pos h]
  rfl

end NodeManager

end Gempba
