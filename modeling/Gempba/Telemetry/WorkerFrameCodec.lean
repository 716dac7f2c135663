import Gempba.Library.MemoryImage
import Gempba.Telemetry.TopologyCodec

/-!
# Frames as bytes

A frame travels as its header, copied as it lies in memory, and an entry for
each edge after it. The members lie as on a 64-bit little-endian machine.
-/

namespace Gempba.Telemetry

set_option autoImplicit false

open MemoryImage

variable {α : Type}

def u16Member (get : α → UInt16) (set : UInt16 → α → α) : Part UInt8 α :=
  .member ⟨2, fun a => putU16 (get a), fun data => set (UInt16.ofNat (littleEndian data)),
    fun a => length_putNumber 2 (get a).toNat⟩

def u32Member (get : α → UInt32) (set : UInt32 → α → α) : Part UInt8 α :=
  .member ⟨4, fun a => putU32 (get a), fun data => set (UInt32.ofNat (littleEndian data)),
    fun a => length_putNumber 4 (get a).toNat⟩

def u64Member (get : α → UInt64) (set : UInt64 → α → α) : Part UInt8 α :=
  .member ⟨8, fun a => putU64 (get a), fun data => set (UInt64.ofNat (littleEndian data)),
    fun a => length_putNumber 8 (get a).toNat⟩

def floatMember (get : α → BitVec 32) (set : BitVec 32 → α → α) : Part UInt8 α :=
  .member ⟨4, fun a => putNumber 4 (get a).toNat,
    fun data => set (BitVec.ofNat 32 (littleEndian data)),
    fun a => length_putNumber 4 (get a).toNat⟩

theorem assign_u16Member (get : α → UInt16) (set : UInt16 → α → α) (a b : α) :
    (u16Member get set).assign a b = set (get a) b := by
  have h : UInt16.ofNat (littleEndian (putU16 (get a))) = get a := by
    rw [putU16, littleEndian_putNumber (get a).toNat_lt, UInt16.ofNat_toNat]
  exact congrArg (set · b) h

theorem assign_u32Member (get : α → UInt32) (set : UInt32 → α → α) (a b : α) :
    (u32Member get set).assign a b = set (get a) b := by
  have h : UInt32.ofNat (littleEndian (putU32 (get a))) = get a := by
    rw [putU32, littleEndian_putNumber (get a).toNat_lt, UInt32.ofNat_toNat]
  exact congrArg (set · b) h

theorem assign_u64Member (get : α → UInt64) (set : UInt64 → α → α) (a b : α) :
    (u64Member get set).assign a b = set (get a) b := by
  have h : UInt64.ofNat (littleEndian (putU64 (get a))) = get a := by
    rw [putU64, littleEndian_putNumber (get a).toNat_lt, UInt64.ofNat_toNat]
  exact congrArg (set · b) h

theorem assign_floatMember (get : α → BitVec 32) (set : BitVec 32 → α → α) (a b : α) :
    (floatMember get set).assign a b = set (get a) b := by
  have h : BitVec.ofNat 32 (littleEndian (putNumber 4 (get a).toNat)) = get a := by
    rw [littleEndian_putNumber (get a).isLt, BitVec.ofNat_toNat, BitVec.setWidth_eq]
  exact congrArg (set · b) h

theorem assign_gap (width : ℕ) (a b : α) : (Part.gap width : Part UInt8 α).assign a b = b := rfl

/-- `worker_frame_header` -/
def workerFrameHeader : List (Part UInt8 WorkerFrame) := [
  u16Member (·.version) fun v f => { f with version := v },
  .gap 2,
  u32Member (·.workerId) fun v f => { f with workerId := v },
  u32Member (·.seqNo) fun v f => { f with seqNo := v },
  u32Member (·.snapshotId) fun v f => { f with snapshotId := v },
  u64Member (·.workerLocalMs) fun v f => { f with workerLocalMs := v },
  u64Member (·.tasksStartedTotal) fun v f => { f with tasksStartedTotal := v },
  u64Member (·.tasksSentTotal) fun v f => { f with tasksSentTotal := v },
  u64Member (·.tasksRecvTotal) fun v f => { f with tasksRecvTotal := v },
  u64Member (·.bytesSentTotal) fun v f => { f with bytesSentTotal := v },
  u64Member (·.bytesRecvTotal) fun v f => { f with bytesRecvTotal := v },
  u64Member (·.sendMicrosecondsTotal) fun v f => { f with sendMicrosecondsTotal := v },
  u64Member (·.recvMicrosecondsTotal) fun v f => { f with recvMicrosecondsTotal := v },
  u64Member (·.spawnRejectedPoolFull) fun v f => { f with spawnRejectedPoolFull := v },
  u64Member (·.spawnRemoteRejected) fun v f => { f with spawnRemoteRejected := v },
  u32Member (·.tasksRunning) fun v f => { f with tasksRunning := v },
  u32Member (·.schedulerPendingCount) fun v f => { f with schedulerPendingCount := v },
  u64Member (·.idleMicrosecondsPerWorker) fun v f => { f with idleMicrosecondsPerWorker := v },
  u64Member (·.idleMicrosecondsStarved) fun v f => { f with idleMicrosecondsStarved := v },
  u64Member (·.idleMicrosecondsImbalanced) fun v f => { f with idleMicrosecondsImbalanced := v },
  u64Member (·.schedRunningMicroseconds) fun v f => { f with schedRunningMicroseconds := v },
  u64Member (·.schedWaitingMicroseconds) fun v f => { f with schedWaitingMicroseconds := v },
  u64Member (·.firstTaskMs) fun v f => { f with firstTaskMs := v },
  u64Member (·.lastTaskMs) fun v f => { f with lastTaskMs := v },
  u64Member (·.assignLatencyMicrosecondsTotal)
    fun v f => { f with assignLatencyMicrosecondsTotal := v },
  u64Member (·.assignCount) fun v f => { f with assignCount := v },
  u64Member (·.assignLatencyMicrosecondsMax)
    fun v f => { f with assignLatencyMicrosecondsMax := v },
  u64Member (·.availableMicrosecondsQueueEmpty)
    fun v f => { f with availableMicrosecondsQueueEmpty := v },
  u64Member (·.coordinatorStateMsgsTotal) fun v f => { f with coordinatorStateMsgsTotal := v },
  u64Member (·.coordinatorScoreProposalsTotal)
    fun v f => { f with coordinatorScoreProposalsTotal := v },
  u64Member (·.coordinatorScoreBroadcastsTotal)
    fun v f => { f with coordinatorScoreBroadcastsTotal := v },
  u64Member (·.scoreProposalsSent) fun v f => { f with scoreProposalsSent := v },
  u64Member (·.lastScoreImprovementMs) fun v f => { f with lastScoreImprovementMs := v },
  u64Member (·.coordinatorFullMicroseconds)
    fun v f => { f with coordinatorFullMicroseconds := v },
  u64Member (·.telemetryMicrosecondsTotal) fun v f => { f with telemetryMicrosecondsTotal := v },
  floatMember (·.processCpuPct) fun v f => { f with processCpuPct := v },
  .gap 4,
  u64Member (·.processRssBytes) fun v f => { f with processRssBytes := v },
  u32Member (·.processThreads) fun v f => { f with processThreads := v },
  .gap 4]

/-- `edge_counter` -/
def edgeCounter : List (Part UInt8 FrameEdgeCounter) := [
  u32Member (·.dstWorkerId) fun v e => { e with dstWorkerId := v },
  .gap 4,
  u64Member (·.bytes) fun v e => { e with bytes := v },
  u64Member (·.count) fun v e => { e with count := v }]

example : size workerFrameHeader = 272 ∧ size edgeCounter = 24 := by decide

theorem assign_workerFrameHeader (f g : WorkerFrame) :
    assign f workerFrameHeader g = { f with edgesOut := g.edgesOut } := by
  simp only [workerFrameHeader, assign, assign_u16Member, assign_u32Member, assign_u64Member,
    assign_floatMember, assign_gap]

theorem assign_edgeCounter (e e' : FrameEdgeCounter) : assign e edgeCounter e' = e := by
  simp only [edgeCounter, assign, assign_u32Member, assign_u64Member, assign_gap]

/-- The bytes of a frame; `fill` are those between the members. -/
def encodeWorkerFrame (fill : ℕ → UInt8) (f : WorkerFrame) : Bytes :=
  image fill 0 workerFrameHeader f ++
    images fill edgeCounter (size workerFrameHeader) f.edgesOut

/-- The frame with what the bytes hold, or none, when their number fits no frame. -/
def decodeWorkerFrame (data : Bytes) (out : WorkerFrame) : Option WorkerFrame :=
  let edges := data.length - size workerFrameHeader
  if data.length < size workerFrameHeader ∨ edges % size edgeCounter ≠ 0 then none
  else
    some { restore workerFrameHeader data out with
      edgesOut := restoreAll edgeCounter ⟨0, 0, 0⟩ (edges / size edgeCounter)
        (data.drop (size workerFrameHeader)) }

theorem length_encodeWorkerFrame (fill : ℕ → UInt8) (f : WorkerFrame) :
    (encodeWorkerFrame fill f).length =
      size workerFrameHeader + f.edgesOut.length * size edgeCounter := by
  rw [encodeWorkerFrame, List.length_append, length_image, length_images]

/-- A frame is read as it was written, whatever lies between its members and whatever the frame
read into held before. -/
theorem decode_encodeWorkerFrame (fill : ℕ → UInt8) (f out : WorkerFrame) :
    decodeWorkerFrame (encodeWorkerFrame fill f) out = some f := by
  have hheader : (image fill 0 workerFrameHeader f).length = size workerFrameHeader :=
    length_image ..
  have hsize : size edgeCounter = 24 := by decide
  rw [decodeWorkerFrame]
  simp only
  rw [length_encodeWorkerFrame, Nat.add_sub_cancel_left, Nat.mul_mod_left,
    Nat.mul_div_cancel _ (by omega), if_neg (by omega), encodeWorkerFrame, restore_image,
    List.drop_left' hheader, restoreAll_images fill fun e => assign_edgeCounter e _,
    assign_workerFrameHeader]

end Gempba.Telemetry
