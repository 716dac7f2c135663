import Mathlib.Data.Nat.Notation

/-!
# What telemetry measures

Frames of ranks and hosts, the topology, and the description of a run. Strings
are lists of bytes; a fixed character array holds a string that ends before the
end of the array. Floats are their bits.
-/

namespace Gempba.Telemetry

set_option autoImplicit false

def TELEMETRY_SCHEMA_VERSION : UInt16 := 2

/-- Bound of the coordinator's table of assignments. -/
def MAX_WORKERS : ℕ := 1024

def MAX_SOCKETS : ℕ := 8

def CPU_MASK_WORDS : ℕ := 16

abbrev Bytes := List UInt8

/-- A `char` array of the given size that holds a terminated string. -/
structure CharArray (size : ℕ) where
  chars : Bytes
  length_chars : chars.length = size
  terminated : 0 ∈ chars

/-- The string it holds. -/
def CharArray.text {size : ℕ} (a : CharArray size) : Bytes := a.chars.takeWhile (· ≠ 0)

structure FrameEdgeCounter where
  dstWorkerId : UInt32
  bytes : UInt64
  count : UInt64
  deriving DecidableEq, Repr

structure WorkerFrame where
  version : UInt16
  workerId : UInt32
  seqNo : UInt32
  snapshotId : UInt32
  workerLocalMs : UInt64
  tasksStartedTotal : UInt64
  tasksSentTotal : UInt64
  tasksRecvTotal : UInt64
  bytesSentTotal : UInt64
  bytesRecvTotal : UInt64
  sendMicrosecondsTotal : UInt64
  recvMicrosecondsTotal : UInt64
  spawnRejectedPoolFull : UInt64
  spawnRemoteRejected : UInt64
  tasksRunning : UInt32
  schedulerPendingCount : UInt32
  idleMicrosecondsPerWorker : UInt64
  idleMicrosecondsStarved : UInt64
  idleMicrosecondsImbalanced : UInt64
  schedRunningMicroseconds : UInt64
  schedWaitingMicroseconds : UInt64
  firstTaskMs : UInt64
  lastTaskMs : UInt64
  assignLatencyMicrosecondsTotal : UInt64
  assignCount : UInt64
  assignLatencyMicrosecondsMax : UInt64
  availableMicrosecondsQueueEmpty : UInt64
  coordinatorStateMsgsTotal : UInt64
  coordinatorScoreProposalsTotal : UInt64
  coordinatorScoreBroadcastsTotal : UInt64
  scoreProposalsSent : UInt64
  lastScoreImprovementMs : UInt64
  coordinatorFullMicroseconds : UInt64
  telemetryMicrosecondsTotal : UInt64
  processCpuPct : BitVec 32
  processRssBytes : UInt64
  processThreads : UInt32
  edgesOut : List FrameEdgeCounter
  deriving DecidableEq, Repr

/-- A frame before it is filled. -/
def WorkerFrame.zero : WorkerFrame where
  version := 0
  workerId := 0
  seqNo := 0
  snapshotId := 0
  workerLocalMs := 0
  tasksStartedTotal := 0
  tasksSentTotal := 0
  tasksRecvTotal := 0
  bytesSentTotal := 0
  bytesRecvTotal := 0
  sendMicrosecondsTotal := 0
  recvMicrosecondsTotal := 0
  spawnRejectedPoolFull := 0
  spawnRemoteRejected := 0
  tasksRunning := 0
  schedulerPendingCount := 0
  idleMicrosecondsPerWorker := 0
  idleMicrosecondsStarved := 0
  idleMicrosecondsImbalanced := 0
  schedRunningMicroseconds := 0
  schedWaitingMicroseconds := 0
  firstTaskMs := 0
  lastTaskMs := 0
  assignLatencyMicrosecondsTotal := 0
  assignCount := 0
  assignLatencyMicrosecondsMax := 0
  availableMicrosecondsQueueEmpty := 0
  coordinatorStateMsgsTotal := 0
  coordinatorScoreProposalsTotal := 0
  coordinatorScoreBroadcastsTotal := 0
  scoreProposalsSent := 0
  lastScoreImprovementMs := 0
  coordinatorFullMicroseconds := 0
  telemetryMicrosecondsTotal := 0
  processCpuPct := 0
  processRssBytes := 0
  processThreads := 0
  edgesOut := []

structure SocketStats where
  socketId : UInt8
  cpuPct : BitVec 32
  memTotalBytes : UInt64
  memUsedBytes : UInt64
  deriving DecidableEq, Repr

structure NodeFrame where
  version : UInt16
  sentinelWorkerId : UInt32
  sentinelLocalMs : UInt64
  hostname : CharArray 64
  socketCount : UInt8
  logicalCores : UInt32
  sockets : Vector SocketStats MAX_SOCKETS
  memTotalBytes : UInt64
  memAvailBytes : UInt64
  cgroupMemUsedBytes : UInt64
  cgroupMemLimitBytes : UInt64

structure TopologySocket where
  socketId : UInt8
  name : Bytes
  physicalCores : UInt16
  logicalCores : UInt16
  cpuIds : List UInt32
  deriving DecidableEq, Repr

structure TopologyNode where
  hostname : Bytes
  workerIds : List UInt32
  sentinelWorkerId : UInt32
  sockets : List TopologySocket
  totalPhysicalCores : UInt16
  totalLogicalCores : UInt16
  memTotalBytes : UInt64
  deriving DecidableEq, Repr

structure WorkerIdentity where
  version : UInt16
  workerId : UInt32
  hostname : CharArray 64
  pid : UInt32
  primarySocket : UInt8
  allowedCpuMask : Vector UInt64 CPU_MASK_WORDS

structure TopologySnapshot where
  nodes : List TopologyNode
  identities : List WorkerIdentity

inductive RuntimeMode where
  | MT_ONLY | MP_MPI
  deriving DecidableEq, Repr

inductive RankRole where
  | WORKER | COORDINATOR
  deriving DecidableEq, Repr

inductive MarkerSource where
  | CODE | DASHBOARD
  deriving DecidableEq, Repr

structure RunMarker where
  elapsedMs : UInt64
  label : Bytes
  source : MarkerSource
  deriving DecidableEq, Repr

structure RunDescription where
  mode : RuntimeMode
  scheduler : Bytes
  loadBalancer : Bytes
  worldSize : UInt32
  roles : List RankRole
  threadsPerProcess : UInt32
  gempbaVersion : Bytes
  annotations : List (Bytes × Bytes)
  markers : List RunMarker
  deriving DecidableEq, Repr

end Gempba.Telemetry
