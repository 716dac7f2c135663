import Gempba.Library.Incumbent
import Gempba.NodeManager
import Gempba.Utils.ScoreLimits

/-!
# Best-of tracking in the node manager

The node manager with both overloads of `try_update_result`: one keeps the
result in memory, the other its serialized bytes. From `set_goal` on, the
score and the result are an incumbent that strictly better offers replace.
`set_goal` installs the worst finite value of the kind except for the floating
kinds under MAXIMISE, where it installs the smallest positive normal number,
and for I64 where `long` has 32 bits.
-/

namespace Gempba

set_option autoImplicit false

/-- `std::variant<std::any, task_packet>`. -/
inductive StoredResult (T : Type) where
  | any (value : Option T)
  | packet (bytes : TaskPacket)
  deriving DecidableEq

structure TypedManager (T : Type) where
  goal : Goal
  score : Score
  result : StoredResult T
  deriving DecidableEq

/-- A call that offers a score; the serializer is only run when the score is better. -/
inductive Update (T : Type) where
  | tryUpdateResult (newResult : T) (newScore : Score)
  | tryUpdateResultBytes (newResult : T) (newScore : Score) (serializer : T → TaskPacket)
  | tryUpdateScoreAndInvalidateResult (newScore : Score)

namespace Update

variable {T : Type}

def newScore : Update T → Score
  | .tryUpdateResult _ newScore => newScore
  | .tryUpdateResultBytes _ newScore _ => newScore
  | .tryUpdateScoreAndInvalidateResult newScore => newScore

/-- What the call leaves in `m_result` when it is accepted. -/
def stored : Update T → StoredResult T
  | .tryUpdateResult newResult _ => .any (some newResult)
  | .tryUpdateResultBytes newResult _ serializer => .packet (serializer newResult)
  | .tryUpdateScoreAndInvalidateResult _ => .packet []

end Update

namespace TypedManager

variable {T : Type}

def make : TypedManager T := ⟨.MAXIMISE, .makeInt 0x80000000, .any none⟩

def setGoal (model : DataModel) (goal : Goal) (kind : ScoreType) (m : TypedManager T) :
    Option (TypedManager T) :=
  (getDefaultScore model goal kind).map fun score => { m with goal, score }

def shouldUpdateResult (newScore : Score) (m : TypedManager T) : Bool :=
  shouldUpdate m.goal m.score newScore

def tryUpdateResult (newResult : T) (newScore : Score) (m : TypedManager T) :
    Bool × TypedManager T :=
  if !m.shouldUpdateResult newScore then (false, m)
  else (true, { m with result := .any (some newResult), score := newScore })

def tryUpdateResultBytes (newResult : T) (newScore : Score) (serializer : T → TaskPacket)
    (m : TypedManager T) : Bool × TypedManager T :=
  if !m.shouldUpdateResult newScore then (false, m)
  else (true, { m with result := .packet (serializer newResult), score := newScore })

def tryUpdateScoreAndInvalidateResult (newScore : Score) (m : TypedManager T) :
    Bool × TypedManager T :=
  if m.shouldUpdateResult newScore then
    (true, { m with score := newScore, result := .packet [] })
  else (false, m)

def call : Update T → TypedManager T → Bool × TypedManager T
  | .tryUpdateResult newResult newScore => tryUpdateResult newResult newScore
  | .tryUpdateResultBytes newResult newScore serializer =>
    tryUpdateResultBytes newResult newScore serializer
  | .tryUpdateScoreAndInvalidateResult newScore => tryUpdateScoreAndInvalidateResult newScore

def run (updates : List (Update T)) (m : TypedManager T) : TypedManager T :=
  updates.foldl (fun m u => (m.call u).2) m

/-- What the schedulers see: the bytes of the result, or that it is held in memory. -/
def toNodeManager (m : TypedManager T) : NodeManager where
  goal := m.goal
  score := m.score
  result := match m.result with
    | .any _ => none
    | .packet bytes => some bytes

/-- All three calls accept alike, and only then do they write. -/
theorem call_eq (u : Update T) (m : TypedManager T) :
    m.call u = if m.shouldUpdateResult u.newScore then
      (true, { m with score := u.newScore, result := u.stored }) else (false, m) := by
  cases u with
  | tryUpdateResult newResult newScore =>
    rw [call, tryUpdateResult, Update.newScore, Update.stored]
    cases m.shouldUpdateResult newScore <;> rfl
  | tryUpdateResultBytes newResult newScore serializer =>
    rw [call, tryUpdateResultBytes, Update.newScore, Update.stored]
    cases m.shouldUpdateResult newScore <;> rfl
  | tryUpdateScoreAndInvalidateResult newScore => rfl

theorem toNodeManager_tryUpdateResultBytes (newResult : T) (newScore : Score)
    (serializer : T → TaskPacket) (m : TypedManager T) :
    (m.tryUpdateResultBytes newResult newScore serializer).2.toNodeManager =
      (m.toNodeManager.tryUpdateResult newScore (serializer newResult)).2 := by
  have hsame : m.toNodeManager.shouldUpdateResult newScore = m.shouldUpdateResult newScore := rfl
  rw [tryUpdateResultBytes, NodeManager.tryUpdateResult, hsame]
  cases m.shouldUpdateResult newScore <;> rfl

theorem toNodeManager_tryUpdateScoreAndInvalidateResult (newScore : Score) (m : TypedManager T) :
    (m.tryUpdateScoreAndInvalidateResult newScore).2.toNodeManager =
      (m.toNodeManager.tryUpdateScoreAndInvalidateResult newScore).2 := by
  have hsame : m.toNodeManager.shouldUpdateResult newScore = m.shouldUpdateResult newScore := rfl
  rw [tryUpdateScoreAndInvalidateResult, NodeManager.tryUpdateScoreAndInvalidateResult, hsame]
  cases m.shouldUpdateResult newScore <;> rfl

end TypedManager

/-- A score with the result stored for it. -/
abbrev Offer (T : Type) := Score × StoredResult T

namespace Offer

variable {T : Type}

def Better (goal : Goal) (x y : Offer T) : Prop := Beats goal x.1 y.1

instance (goal : Goal) : DecidableRel (Better goal : Offer T → Offer T → Prop) :=
  fun _ _ => decidable_of_iff _ shouldUpdate_iff_beats

theorem ranking (goal : Goal) :
    Incumbent.Ranking (Better goal : Offer T → Offer T → Prop) (fun x => x.1.value ≠ none) where
  irrefl x h := by
    have hself := shouldUpdate_iff_beats.mpr h
    rw [shouldUpdate_self] at hself
    cases hself
  trans x y z hxy hyz := by
    rw [Better, ← shouldUpdate_iff_beats] at hxy hyz ⊢
    exact shouldUpdate_trans hyz hxy
  split x y z hy hxz := by
    rw [Better, ← shouldUpdate_iff_beats] at hxz
    rw [Better, Better, ← shouldUpdate_iff_beats, ← shouldUpdate_iff_beats]
    exact shouldUpdate_split hxz hy

end Offer

namespace TypedManager

variable {T : Type} {goal : Goal} {kind : ScoreType} {m : TypedManager T}
  {updates : List (Update T)}

def offered (updates : List (Update T)) : List (Offer T) :=
  updates.map fun u => (u.newScore, u.stored)

def best (m : TypedManager T) : Offer T := (m.score, m.result)

theorem call_keep (u : Update T) (m : TypedManager T) :
    (m.call u).2.goal = m.goal ∧
      (m.call u).2.best = Incumbent.keep (Offer.Better m.goal) m.best (u.newScore, u.stored) := by
  have hbetter : Offer.Better m.goal (u.newScore, u.stored) m.best ↔
      m.shouldUpdateResult u.newScore = true := shouldUpdate_iff_beats.symm
  rw [call_eq, Incumbent.keep]
  cases hupdate : m.shouldUpdateResult u.newScore with
  | true =>
    rw [hupdate] at hbetter
    rw [if_pos (hbetter.mpr rfl)]
    exact ⟨rfl, rfl⟩
  | false =>
    rw [hupdate] at hbetter
    rw [if_neg fun h => Bool.false_ne_true (hbetter.mp h)]
    exact ⟨rfl, rfl⟩

/-- A run of calls is the incumbent over the offers. -/
theorem run_keep (updates : List (Update T)) (m : TypedManager T) :
    (run updates m).best =
      (offered updates).foldl (Incumbent.keep (Offer.Better m.goal)) m.best := by
  induction updates generalizing m with
  | nil => rfl
  | cons u updates ih =>
    obtain ⟨hgoal, hbest⟩ := call_keep u m
    calc (run (u :: updates) m).best
        = (run updates (m.call u).2).best := rfl
      _ = (offered updates).foldl (Incumbent.keep (Offer.Better (m.call u).2.goal))
            (m.call u).2.best := ih _
      _ = (offered (u :: updates)).foldl (Incumbent.keep (Offer.Better m.goal)) m.best := by
          rw [hgoal, hbest]
          rfl

/-- The score is the optimum of those offered, and the result that of the first call with it. -/
def Tracks (goal : Goal) (updates : List (Update T)) (m : TypedManager T) : Prop :=
  Incumbent.FirstBest (Offer.Better goal) (offered updates) m.best

/-- Some call offers a score better than the one before the calls. -/
def Improved (goal : Goal) (updates : List (Update T)) (m : TypedManager T) : Prop :=
  ∃ u ∈ updates, Beats goal u.newScore m.score

theorem tracks_iff_improved (hgoal : m.goal = goal)
    (hnumbers : ∀ u ∈ updates, u.newScore.value ≠ none) :
    Tracks goal updates (run updates m) ↔ Improved goal updates m ∨ Tracks goal updates m := by
  have hP : ∀ x ∈ offered updates, x.1.value ≠ none := by
    intro x hx
    obtain ⟨u, hu, rfl⟩ := List.mem_map.mp hx
    exact hnumbers u hu
  rw [Tracks, run_keep, hgoal]
  rcases Incumbent.foldl_keep (Offer.ranking goal) hP m.best with
    ⟨hkept, hworse⟩ | ⟨hfirst, himproved⟩
  · rw [hkept]
    constructor
    · exact Or.inr
    · rintro (⟨u, hu, hbeats⟩ | htracks)
      · exact absurd hbeats (hworse _ (List.mem_map_of_mem hu))
      · exact htracks
  · refine iff_of_true hfirst (Or.inl ?_)
    obtain ⟨u, hu, he⟩ := List.mem_map.mp hfirst.mem
    refine ⟨u, hu, ?_⟩
    rw [← he] at himproved
    exact himproved

/-- A score of the kind, strictly better than its worst finite value. -/
def Admissible (goal : Goal) (kind : ScoreType) (u : Update T) : Prop :=
  u.newScore.kind = kind ∧ Beats goal u.newScore (worstFinite goal kind)

theorem setGoal_eq_some {model : DataModel} {m' : TypedManager T}
    (h : m.setGoal model goal kind = some m') :
    m'.goal = goal ∧ m'.result = m.result ∧ getDefaultScore model goal kind = some m'.score := by
  obtain ⟨score, hscore, rfl⟩ := Option.map_eq_some_iff.mp h
  exact ⟨rfl, rfl, hscore⟩

/-- Calls after `set_goal` are tracked exactly when one improves on the initial score, or when
that score and the result stored before are already those of the first best call. One call is
certain to improve exactly when the initial score is the worst finite value of the kind. -/
theorem tracks_iff {model : DataModel} {m' : TypedManager T}
    (hset : m.setGoal model goal kind = some m') :
    (∀ updates : List (Update T), updates ≠ [] → (∀ u ∈ updates, Admissible goal kind u) →
      (Tracks goal updates (run updates m') ↔
        Improved goal updates m' ∨ Tracks goal updates m')) ∧
    ((∀ updates : List (Update T), updates ≠ [] → (∀ u ∈ updates, Admissible goal kind u) →
      Improved goal updates m') ↔ m'.score = worstFinite goal kind) := by
  obtain ⟨hgoal, _, hdefault⟩ := setGoal_eq_some hset
  refine ⟨fun updates _ hadmissible => tracks_iff_improved hgoal fun u hu => ?_, ?_, ?_⟩
  · obtain ⟨_, a, _, ha, _⟩ := hadmissible u hu
    rw [ha]
    exact Option.some_ne_none a
  · intro himproved
    by_contra hne
    obtain ⟨score, hkind, hbeats, hmissed⟩ := exists_missed hdefault hne
    obtain ⟨u, hu, hu'⟩ := himproved [.tryUpdateScoreAndInvalidateResult score]
      (List.cons_ne_nil _ _) fun u hu => by
        rw [List.mem_singleton.mp hu]
        exact ⟨hkind, hbeats⟩
    rw [List.mem_singleton.mp hu] at hu'
    exact hmissed hu'
  · intro hworst updates hne hadmissible
    obtain ⟨u, hu⟩ := List.exists_mem_of_ne_nil updates hne
    refine ⟨u, hu, ?_⟩
    rw [hworst]
    exact (hadmissible u hu).2

/-- A new node manager for MAXIMISE with scores of kind F32. -/
def maximiseFloat : TypedManager ℕ := ⟨.MAXIMISE, .makeRaw .F32 0x00800000, .any none⟩

theorem tracks_iff_maximiseFloat :
    (∀ updates : List (Update ℕ), updates ≠ [] → (∀ u ∈ updates, Admissible .MAXIMISE .F32 u) →
      (Tracks .MAXIMISE updates (run updates maximiseFloat) ↔
        Improved .MAXIMISE updates maximiseFloat ∨ Tracks .MAXIMISE updates maximiseFloat)) ∧
    ((∀ updates : List (Update ℕ), updates ≠ [] →
      (∀ u ∈ updates, Admissible .MAXIMISE .F32 u) → Improved .MAXIMISE updates maximiseFloat) ↔
        maximiseFloat.score = worstFinite .MAXIMISE .F32) :=
  tracks_iff (show make.setGoal .LP64 .MAXIMISE .F32 = some maximiseFloat from rfl)

theorem beats_minusOne :
    Beats .MAXIMISE (.makeRaw .F32 0xbf800000) (worstFinite .MAXIMISE .F32) ∧
      ¬ Beats .MAXIMISE (.makeRaw .F32 0xbf800000) (.makeRaw .F32 0x00800000) := by
  let bias : ℤ := 2 ^ (8 - 1) - 1
  apply beats_of_values (a := Numeric.scaled true 0x800000 ((127 : ℕ) - bias - (23 : ℕ)))
    (b := Numeric.scaled true 0xffffff ((254 : ℕ) - bias - (23 : ℕ)))
    (c := Numeric.scaled false 0x800000 ((1 : ℕ) - bias - (23 : ℕ))) rfl rfl rfl
  · apply Numeric.finite_lt.mpr
    norm_num [bias]
  · exact not_lt.mpr ((Numeric.scaled_true_neg (by decide) _).le.trans
      (Numeric.scaled_false_nonneg _ _))

/-- The score -1.0 is offered, and the smallest positive normal number stays. -/
theorem negative_score_ignored :
    ∃ m : TypedManager ℕ, make.setGoal .LP64 .MAXIMISE .F32 = some m ∧
      Admissible .MAXIMISE .F32 (.tryUpdateResult 7 (.makeRaw .F32 0xbf800000) : Update ℕ) ∧
      (run [.tryUpdateResult 7 (.makeRaw .F32 0xbf800000)] m).score = .makeRaw .F32 0x00800000 ∧
      ¬ Tracks .MAXIMISE [.tryUpdateResult 7 (.makeRaw .F32 0xbf800000)]
        (run [.tryUpdateResult 7 (.makeRaw .F32 0xbf800000)] m) := by
  have hrun : run [.tryUpdateResult 7 (.makeRaw .F32 0xbf800000)] maximiseFloat =
      maximiseFloat := by
    have hnot : ¬ maximiseFloat.shouldUpdateResult (.makeRaw .F32 0xbf800000) = true :=
      fun h => beats_minusOne.2 (shouldUpdate_iff_beats.mp h)
    have hcall := call_eq (.tryUpdateResult 7 (.makeRaw .F32 0xbf800000)) maximiseFloat
    rw [Update.newScore, if_neg hnot] at hcall
    exact congrArg Prod.snd hcall
  refine ⟨maximiseFloat, rfl, ⟨rfl, beats_minusOne.1⟩, ?_, ?_⟩
  · rw [hrun]
    rfl
  · rw [hrun]
    intro htracks
    exact absurd htracks.mem (by decide)

end TypedManager

end Gempba
