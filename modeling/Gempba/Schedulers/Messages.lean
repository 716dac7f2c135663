import Gempba.Utils.Score
import Mathlib.Data.Fintype.Card

/-!
# Ranks, payloads, phases and failures shared by the schedulers

A world has at least two processes: initialisation aborts on a smaller one.
Rank 0 is the center, every other rank a worker, and the seed goes to rank 1.
-/

namespace Gempba

set_option autoImplicit false

structure World where
  size : ℕ
  two_le : 2 ≤ size

abbrev Rank (W : World) := Fin W.size

namespace World

theorem size_pos (W : World) : 0 < W.size := by
  have := W.two_le
  omega

def center (W : World) : Rank W := ⟨0, W.size_pos⟩

def first (W : World) : Rank W := ⟨1, by have := W.two_le; omega⟩

def pair : World := ⟨2, le_rfl⟩

theorem two_le_four : 2 ≤ 4 := by decide

/-- A center and three workers. -/
def four : World := ⟨4, two_le_four⟩

theorem first_ne_center (W : World) : W.first ≠ W.center := by
  simp [first, center]

end World

abbrev WorkerRank (W : World) := { r : Rank W // r ≠ W.center }

def World.firstWorker (W : World) : WorkerRank W := ⟨W.first, W.first_ne_center⟩

def secondOfFour : WorkerRank World.four :=
  ⟨⟨2, Nat.lt_succ_of_lt (Nat.lt_succ_self 2)⟩, Fin.ne_of_val_ne two_ne_zero⟩

def thirdOfFour : WorkerRank World.four :=
  ⟨⟨3, Nat.lt_succ_self 3⟩, Fin.ne_of_val_ne three_ne_zero⟩

abbrev TaskPacket := List UInt8

structure TaskBundle where
  packet : TaskPacket
  runnableId : ℤ
  deriving DecidableEq, Repr

structure Result where
  score : Score
  packet : TaskPacket
  deriving DecidableEq, Repr

namespace Result

def EMPTY : Result := ⟨.makeInt (-1), []⟩

end Result

/-- What a worker sends at the end: `HAS_RESULT` with its result, or `NO_RESULT`. -/
abbrev Report := Option Result

/-- The two state notifications a worker sends to the center. -/
inductive StateTag where
  | RUNNING_STATE | AVAILABLE_STATE
  deriving DecidableEq, Repr

inductive ProcessState where
  | RUNNING_STATE | ASSIGNED_STATE | AVAILABLE_STATE
  deriving DecidableEq, Repr

/-- A `TASK` with the `RUNNABLE_ID` that follows it: the pair is sent and received together. -/
structure TaskMessage (W : World) where
  source : Rank W
  destination : Rank W
  bundle : TaskBundle
  deriving DecidableEq

structure Acknowledgement (W : World) where
  source : Rank W
  destination : Rank W
  deriving DecidableEq

/-- Where a worker is in its receive loop. `executing` lasts from the receipt of a task to
the call of `release_parent_if_passive` after the funnel, `barrier` follows the receipt of
`TERMINATION`. -/
inductive WorkerPhase where
  | receiving | executing | barrier | reported
  deriving DecidableEq, Repr

/-- Where the center is: in its receive loop, in the barrier of `notify_termination`, or in
`receive_solution` with the next rank to hear. -/
inductive CenterPhase (W : World) where
  | receiving | barrier | collecting (next : WorkerRank W) | finished
  deriving DecidableEq

def nextPhase {W : World} (w : WorkerRank W) : CenterPhase W :=
  if h : w.val.val + 1 < W.size then
    .collecting ⟨⟨w.val.val + 1, h⟩, fun he => by simp [World.center] at he⟩
  else .finished

theorem nextPhase_ne_receiving {W : World} (w : WorkerRank W) : nextPhase w ≠ .receiving := by
  unfold nextPhase
  split <;> simp

inductive ProbedTag where
  | state (tag : StateTag)
  | report (report : Report)
  | acknowledgement
  | task (bundle : TaskBundle)
  deriving DecidableEq

/-- The places where the schedulers throw. -/
inductive Fault where
  | emptyBuffer
  | emptyVector
  | queueNotEmpty
  | messageTooLong
  | sendToItself
  | noDestination
  | taskFoundInQueue
  | leavingWithPendingMessage
  | terminationWithWorkInProgress
  | unexpectedAcknowledgement
  | unknownTag
  | tooManyCenterMessages
  deriving DecidableEq, Repr

/-- The throws that report a broken protocol of tasks and acknowledgements. -/
def Fault.ofProtocol : List Fault :=
  [.terminationWithWorkInProgress, .unexpectedAcknowledgement, .unknownTag]

end Gempba
