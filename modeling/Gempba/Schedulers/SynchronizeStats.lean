import Gempba.Library.Barriers
import Gempba.Library.SafeSteps
import Gempba.Schedulers.MpiStats
import Gempba.Telemetry.Hub
import Mathlib.Logic.Function.Basic

/-!
# The gathering of the statistics

Between two barriers every rank sends its statistics to rank 0, which receives
them in the order of the ranks. A send ends when its message has been received.
The ranks call as often as they like, and their statistics change between the
calls.
-/

namespace Gempba

set_option autoImplicit false

open Transition Telemetry

/-- Where a rank is in `synchronize_stats`; `next` is the rank from which rank 0 receives next. -/
inductive SyncPoint where
  | outside
  | entering
  | sending
  | waiting
  | gathering (next : ℕ)
  | leaving
  deriving DecidableEq, Repr

def SyncPoint.inside : SyncPoint → Bool
  | .entering | .leaving => true
  | .outside | .sending | .waiting | .gathering _ => false

structure SyncRank where
  point : SyncPoint
  passed : ℕ
  stats : DefaultMpiStats
  /-- The statistics that the rank has given, one for each call. -/
  given : List DefaultMpiStats

namespace SyncRank

def gate (x : SyncRank) : Barriers.Gate := ⟨x.passed, x.point.inside⟩

def setPoint (p : SyncPoint) (x : SyncRank) : SyncRank := { x with point := p }

def pass (p : SyncPoint) (x : SyncRank) : SyncRank := { x with point := p, passed := x.passed + 1 }

def give (x : SyncRank) : SyncRank := { x with given := x.given ++ [x.stats] }

end SyncRank

structure SyncState (n : ℕ) where
  rank : Fin (n + 1) → SyncRank
  /-- The messages to rank 0 that have not been received. -/
  link : Fin (n + 1) → List Bytes
  statsVector : List DefaultMpiStats

inductive SyncFault where
  | invalidArgument
  deriving DecidableEq, Repr

inductive SyncEvent (n : ℕ) where
  | work (r : Fin (n + 1)) (stats : DefaultMpiStats)
  | synchronizeStats (r : Fin (n + 1))
  | passBarrier (r : Fin (n + 1))
  | ssend (r : Fin (n + 1)) (fill : ℕ → UInt8)
  | ssendReturns (r : Fin (n + 1))
  | recv
  | gathered

namespace SyncState

variable {n : ℕ}

abbrev Step (n : ℕ) := Outcome SyncFault (SyncState n)

def gate (s : SyncState n) (r : Fin (n + 1)) : Barriers.Gate := (s.rank r).gate

def setRank (r : Fin (n + 1)) (x : SyncRank) (s : SyncState n) : SyncState n :=
  { s with rank := Function.update s.rank r x }

def setLink (r : Fin (n + 1)) (packets : List Bytes) (s : SyncState n) : SyncState n :=
  { s with link := Function.update s.link r packets }

def setPoint (r : Fin (n + 1)) (p : SyncPoint) (s : SyncState n) : SyncState n :=
  s.setRank r ((s.rank r).setPoint p)

def push (stats : DefaultMpiStats) (s : SyncState n) : SyncState n :=
  { s with statsVector := s.statsVector ++ [stats] }

/-- What a rank does between the calls. -/
def work (r : Fin (n + 1)) (stats : DefaultMpiStats) (s : SyncState n) : Step n :=
  if (s.rank r).point = .outside then .moved (s.setRank r { s.rank r with stats }) else .blocked

def synchronizeStats (r : Fin (n + 1)) (s : SyncState n) : Step n :=
  if (s.rank r).point = .outside then .moved (s.setPoint r .entering) else .blocked

/-- Rank 0 puts its own statistics first. -/
def passBarrier (r : Fin (n + 1)) (s : SyncState n) : Step n :=
  let x := s.rank r
  if Barriers.IsOpen s.gate r then
    match x.point with
    | .entering =>
      if r = 0 then .moved ((s.setRank r (x.pass (.gathering 1)).give).push x.stats)
      else .moved (s.setRank r (x.pass .sending))
    | .leaving => .moved (s.setRank r (x.pass .outside))
    | .outside | .sending | .waiting | .gathering _ => .blocked
  else .blocked

def ssend (r : Fin (n + 1)) (fill : ℕ → UInt8) (s : SyncState n) : Step n :=
  let x := s.rank r
  if x.point = .sending then
    .moved ((s.setRank r (x.setPoint .waiting).give).setLink r
      (s.link r ++ [x.stats.serialize fill]))
  else .blocked

def ssendReturns (r : Fin (n + 1)) (s : SyncState n) : Step n :=
  if (s.rank r).point = .waiting ∧ s.link r = [] then .moved (s.setPoint r .leaving)
  else .blocked

/-- Rank 0 waits for the message of the next rank. -/
def recv (s : SyncState n) : Step n :=
  match (s.rank 0).point with
  | .gathering next =>
    if h : next < n + 1 then
      match s.link ⟨next, h⟩ with
      | [] => .blocked
      | packet :: packets =>
        match DefaultMpiStats.fromPacket packet with
        | none => .raised .invalidArgument
        | some stats =>
          .moved (((s.setLink ⟨next, h⟩ packets).setPoint 0 (.gathering (next + 1))).push stats)
    else .blocked
  | .outside | .entering | .sending | .waiting | .leaving => .blocked

def gathered (s : SyncState n) : Step n :=
  match (s.rank 0).point with
  | .gathering next => if next < n + 1 then .blocked else .moved (s.setPoint 0 .leaving)
  | .outside | .entering | .sending | .waiting | .leaving => .blocked

def step : SyncEvent n → SyncState n → Step n
  | .work r stats => work r stats
  | .synchronizeStats r => synchronizeStats r
  | .passBarrier r => passBarrier r
  | .ssend r fill => ssend r fill
  | .ssendReturns r => ssendReturns r
  | .recv => recv
  | .gathered => gathered

def start : SyncState n where
  rank r := ⟨.outside, 0, .initial (Int32.ofNat r), []⟩
  link _ := []
  statsVector := []

end SyncState

def syncMachine (n : ℕ) : Machine (SyncState n) (SyncEvent n) SyncFault where
  initial s := s = SyncState.start
  step := SyncState.step

end Gempba
