import Gempba.Library.Flow
import Gempba.Telemetry.Collection
import Gempba.Telemetry.SchedulerClock

/-!
# The counters of a hub

What the scheduler and the load balancer report is added up in counters of 64
bits, and a frame reads them. What the pool and the process say of themselves
comes from outside.
-/

namespace Gempba.Telemetry

set_option autoImplicit false

open Transition

structure EdgeSlot where
  bytes : UInt64
  count : UInt64
  deriving DecidableEq, Repr

def EdgeSlot.add (bytes : UInt64) (e : EdgeSlot) : EdgeSlot := ⟨e.bytes + bytes, e.count + 1⟩

structure HubCounters where
  tasksStartedTotal : UInt64
  tasksSentTotal : UInt64
  tasksRecvTotal : UInt64
  bytesSentTotal : UInt64
  bytesRecvTotal : UInt64
  sendNanosecondsTotal : UInt64
  recvNanosecondsTotal : UInt64
  coordinatorStateMsgsTotal : UInt64
  coordinatorScoreProposalsTotal : UInt64
  coordinatorScoreBroadcastsTotal : UInt64
  scoreProposalsSent : UInt64
  telemetryMicrosecondsTotal : UInt64
  edgesOut : List EdgeSlot
  schedulerClock : SchedulerClock

/-- What is reported besides the tasks sent and received. -/
inductive HubReport where
  | taskLocal
  | coordinatorStateMsg
  | coordinatorScoreProposal
  | coordinatorScoreBroadcast
  | scoreProposalSent
  | clock (e : ClockEvent) (now : UInt64)
  | movedFrames (elapsed : UInt64)
  deriving DecidableEq, Repr

/-- The pool's numbers; its idle times are in microseconds. -/
structure PoolReadings where
  threadPoolSize : UInt32
  idleTime : UInt64
  starvedIdleTime : UInt64
  imbalancedIdleTime : UInt64
  tasksRunningCount : UInt64
  spawnRejectedPoolFullCount : UInt64
  spawnRemoteRejectedCount : UInt64
  deriving DecidableEq, Repr

structure FrameReadings where
  monotonicMs : UInt64
  monotonicUs : UInt64
  processCpuPct : BitVec 32
  processRssBytes : UInt64
  pool : Option PoolReadings
  pendingRequestCount : Option UInt64
  deriving DecidableEq, Repr

/-- The loop over the edges, from the `i`-th on. -/
def edgeCounters : ℕ → List EdgeSlot → List FrameEdgeCounter
  | _, [] => []
  | i, e :: es =>
    if e.count ≠ 0 then ⟨UInt32.ofNat i, e.bytes, e.count⟩ :: edgeCounters (i + 1) es
    else edgeCounters (i + 1) es

namespace HubCounters

def initial (worldSize : ℕ) : HubCounters where
  tasksStartedTotal := 0
  tasksSentTotal := 0
  tasksRecvTotal := 0
  bytesSentTotal := 0
  bytesRecvTotal := 0
  sendNanosecondsTotal := 0
  recvNanosecondsTotal := 0
  coordinatorStateMsgsTotal := 0
  coordinatorScoreProposalsTotal := 0
  coordinatorScoreBroadcastsTotal := 0
  scoreProposalsSent := 0
  telemetryMicrosecondsTotal := 0
  edgesOut := List.replicate worldSize ⟨0, 0⟩
  schedulerClock := .initial

/-- A rank outside the world has no edge. -/
def recordSend (dstRank : UInt32) (bytes elapsed : UInt64) (c : HubCounters) : HubCounters :=
  { c with
    edgesOut := c.edgesOut.modify dstRank.toNat (·.add bytes)
    tasksSentTotal := c.tasksSentTotal + 1
    bytesSentTotal := c.bytesSentTotal + bytes
    sendNanosecondsTotal := c.sendNanosecondsTotal + elapsed }

def recordRecv (_srcRank : UInt32) (bytes elapsed : UInt64) (c : HubCounters) : HubCounters :=
  { c with
    tasksRecvTotal := c.tasksRecvTotal + 1
    bytesRecvTotal := c.bytesRecvTotal + bytes
    recvNanosecondsTotal := c.recvNanosecondsTotal + elapsed }

def recordTaskLocal (c : HubCounters) : HubCounters :=
  { c with tasksStartedTotal := c.tasksStartedTotal + 1 }

def recordCoordinatorStateMsg (c : HubCounters) : HubCounters :=
  { c with coordinatorStateMsgsTotal := c.coordinatorStateMsgsTotal + 1 }

def recordCoordinatorScoreProposal (c : HubCounters) : HubCounters :=
  { c with coordinatorScoreProposalsTotal := c.coordinatorScoreProposalsTotal + 1 }

def recordCoordinatorScoreBroadcast (c : HubCounters) : HubCounters :=
  { c with coordinatorScoreBroadcastsTotal := c.coordinatorScoreBroadcastsTotal + 1 }

def recordScoreProposalSent (c : HubCounters) : HubCounters :=
  { c with scoreProposalsSent := c.scoreProposalsSent + 1 }

/-- `record_run_start` and the other events of the scheduler's clock. -/
def recordClock (e : ClockEvent) (now : UInt64) (c : HubCounters) : HubCounters :=
  { c with schedulerClock := c.schedulerClock.record now e }

/-- The end of a tick that moved frames. -/
def movedFrames (elapsed : UInt64) (c : HubCounters) : HubCounters :=
  { c with telemetryMicrosecondsTotal := c.telemetryMicrosecondsTotal + elapsed }

def record : HubReport → HubCounters → HubCounters
  | .taskLocal => recordTaskLocal
  | .coordinatorStateMsg => recordCoordinatorStateMsg
  | .coordinatorScoreProposal => recordCoordinatorScoreProposal
  | .coordinatorScoreBroadcast => recordCoordinatorScoreBroadcast
  | .scoreProposalSent => recordScoreProposalSent
  | .clock e now => recordClock e now
  | .movedFrames elapsed => movedFrames elapsed

/-- The part of a frame that the counters fill. -/
def counted (monotonicMs : UInt64) (c : HubCounters) : WorkerFrame :=
  { WorkerFrame.zero with
    workerLocalMs := monotonicMs
    tasksStartedTotal := c.tasksStartedTotal
    tasksSentTotal := c.tasksSentTotal
    tasksRecvTotal := c.tasksRecvTotal
    bytesSentTotal := c.bytesSentTotal
    bytesRecvTotal := c.bytesRecvTotal
    sendMicrosecondsTotal := c.sendNanosecondsTotal / 1000
    recvMicrosecondsTotal := c.recvNanosecondsTotal / 1000
    coordinatorStateMsgsTotal := c.coordinatorStateMsgsTotal
    coordinatorScoreProposalsTotal := c.coordinatorScoreProposalsTotal
    coordinatorScoreBroadcastsTotal := c.coordinatorScoreBroadcastsTotal
    scoreProposalsSent := c.scoreProposalsSent
    telemetryMicrosecondsTotal := c.telemetryMicrosecondsTotal
    edgesOut := edgeCounters 0 c.edgesOut }

end HubCounters

def PoolReadings.fill (p : PoolReadings) (f : WorkerFrame) : WorkerFrame :=
  { f with
    processThreads := p.threadPoolSize + 1
    idleMicrosecondsPerWorker := p.idleTime
    idleMicrosecondsStarved := p.starvedIdleTime
    idleMicrosecondsImbalanced := p.imbalancedIdleTime
    tasksRunning := p.tasksRunningCount.toUInt32
    spawnRejectedPoolFull := p.spawnRejectedPoolFullCount
    spawnRemoteRejected := p.spawnRemoteRejectedCount }

/-- What a frame takes from outside of the hub. -/
def FrameReadings.fill (r : FrameReadings) (f : WorkerFrame) : WorkerFrame :=
  let f := { f with processCpuPct := r.processCpuPct, processRssBytes := r.processRssBytes }
  let f := match r.pool with
    | some p => p.fill f
    | none => f
  match r.pendingRequestCount with
  | some count => { f with schedulerPendingCount := count.toUInt32 }
  | none => f

namespace HubCounters

def measure (r : FrameReadings) (c : HubCounters) : WorkerFrame :=
  r.fill (c.schedulerClock.fill r.monotonicUs (c.counted r.monotonicMs))

/-- The frame that a rank emits. -/
def snapshotWorkerFrame (rank : UInt32) (h : Hub) (r : FrameReadings) (c : HubCounters) :
    WorkerFrame :=
  h.snapshotWorkerFrame rank (c.measure r)

/-! ## The traffic of a frame -/

variable {c : HubCounters} {rank : UInt32} {h : Hub} {r : FrameReadings}

/-- The traffic in a frame. -/
structure Traffic (f : WorkerFrame) (c : HubCounters) : Prop where
  tasksSent : f.tasksSentTotal = c.tasksSentTotal
  tasksRecv : f.tasksRecvTotal = c.tasksRecvTotal
  bytesSent : f.bytesSentTotal = c.bytesSentTotal
  bytesRecv : f.bytesRecvTotal = c.bytesRecvTotal
  edgesOut : f.edgesOut = edgeCounters 0 c.edgesOut

theorem traffic_snapshotWorkerFrame (rank : UInt32) (h : Hub) (r : FrameReadings)
    (c : HubCounters) : Traffic (c.snapshotWorkerFrame rank h r) c := by
  obtain ⟨ms, us, pct, rss, pool, pending⟩ := r
  cases pool <;> cases pending <;> exact ⟨rfl, rfl, rfl, rfl, rfl⟩

end HubCounters

/-! ## The edges of a frame -/

theorem mem_edgeCounters {e : FrameEdgeCounter} {es : List EdgeSlot} {i : ℕ}
    (he : e ∈ edgeCounters i es) :
    e.count ≠ 0 ∧ ∃ k < es.length, e.dstWorkerId = UInt32.ofNat (i + k) := by
  induction es generalizing i with
  | nil => exact absurd he List.not_mem_nil
  | cons slot es ih =>
    have htail : e ∈ edgeCounters (i + 1) es →
        e.count ≠ 0 ∧ ∃ k < (slot :: es).length, e.dstWorkerId = UInt32.ofNat (i + k) := by
      intro he
      obtain ⟨hcount, k, hk, hdst⟩ := ih he
      refine ⟨hcount, k + 1, Nat.succ_lt_succ hk, ?_⟩
      rw [hdst, Nat.add_assoc, Nat.add_comm 1]
    rw [edgeCounters] at he
    split at he
    · rename_i hslot
      obtain rfl | he := List.mem_cons.mp he
      · exact ⟨hslot, 0, Nat.succ_pos _, rfl⟩
      · exact htail he
    · exact htail he

theorem dstWorkerId_of_mem {e : FrameEdgeCounter} {es : List EdgeSlot} {i : ℕ}
    (hlength : i + es.length ≤ 2 ^ 32) (he : e ∈ edgeCounters i es) :
    i ≤ e.dstWorkerId.toNat ∧ e.dstWorkerId.toNat < i + es.length := by
  obtain ⟨_, k, hk, hdst⟩ := mem_edgeCounters he
  rw [hdst, UInt32.toNat_ofNat_of_lt' (by change i + k < 2 ^ 32; omega)]
  omega

/-- The edges of a frame lead to different ranks of a world of `size` ranks, in their order. -/
structure Listed (size : ℕ) (es : List FrameEdgeCounter) : Prop where
  ascending : es.Pairwise fun e e' => e.dstWorkerId < e'.dstWorkerId
  inWorld : ∀ e ∈ es, e.dstWorkerId.toNat < size
  counted : ∀ e ∈ es, e.count ≠ 0

theorem listed_edgeCounters {es : List EdgeSlot} (hlength : es.length ≤ 2 ^ 32) :
    Listed es.length (edgeCounters 0 es) := by
  have hascending : ∀ (es : List EdgeSlot) (i : ℕ), i + es.length ≤ 2 ^ 32 →
      (edgeCounters i es).Pairwise fun e e' => e.dstWorkerId < e'.dstWorkerId := by
    intro es
    induction es with
    | nil => exact fun _ _ => List.Pairwise.nil
    | cons slot es ih =>
      intro i hi
      rw [List.length_cons] at hi
      have htail := ih (i + 1) (by omega)
      rw [edgeCounters]
      split
      · refine List.pairwise_cons.mpr ⟨fun e he => ?_, htail⟩
        obtain ⟨hdst, -⟩ := dstWorkerId_of_mem (by omega) he
        rw [UInt32.lt_iff_toNat_lt, UInt32.toNat_ofNat_of_lt' (by change i < 2 ^ 32; omega)]
        omega
      · exact htail
  constructor
  · exact hascending es 0 (by omega)
  · intro e he
    obtain ⟨-, hdst⟩ := dstWorkerId_of_mem (by omega) he
    omega
  · intro e he
    exact (mem_edgeCounters he).1

/-- What the frame says of the edge to rank `i + k`. -/
theorem tally_edgeCounters (weight : FrameEdgeCounter → ℕ) {es : List EdgeSlot} {i k : ℕ}
    (hlength : i + es.length ≤ 2 ^ 32) (hk : k < es.length) :
    tally weight (fun e => e.dstWorkerId.toNat = i + k) (edgeCounters i es) =
      if es[k].count ≠ 0 then weight ⟨UInt32.ofNat (i + k), es[k].bytes, es[k].count⟩ else 0 := by
  induction es generalizing i k with
  | nil => exact absurd hk (Nat.not_lt_zero k)
  | cons slot es ih =>
    rw [List.length_cons] at hlength
    have hfirst : (UInt32.ofNat i).toNat = i :=
      UInt32.toNat_ofNat_of_lt' (by change i < 2 ^ 32; omega)
    cases k with
    | zero =>
      have hrest : tally weight (fun e => e.dstWorkerId.toNat = i)
          (edgeCounters (i + 1) es : Multiset FrameEdgeCounter) = 0 := by
        refine tally_eq_zero fun e he => ?_
        obtain ⟨hdst, -⟩ := dstWorkerId_of_mem (by omega) (Multiset.mem_coe.mp he)
        omega
      simp only [Nat.add_zero, List.getElem_cons_zero]
      rw [edgeCounters]
      split
      · rw [← Multiset.cons_coe, tally_cons, hrest, if_pos hfirst, Nat.add_zero]
      · exact hrest
    | succ k =>
      have hrest := ih (i := i + 1) (k := k) (by omega) (Nat.lt_of_succ_lt_succ hk)
      rw [Nat.add_assoc, Nat.add_comm 1] at hrest
      simp only [List.getElem_cons_succ]
      rw [edgeCounters]
      split
      · have hother : (UInt32.ofNat i).toNat ≠ i + (k + 1) := by omega
        rw [← Multiset.cons_coe, tally_cons, hrest, if_neg hother, Nat.zero_add]
      · exact hrest

end Gempba.Telemetry
