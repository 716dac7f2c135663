import Gempba.Library.Json
import Gempba.Telemetry.Frames
import Gempba.Utils.Score
import Mathlib.Data.Nat.Digits.Defs

/-!
# The writer of broadcast lines

Each function gives the bytes that the writer's function appends. A loop that
separates its entries by commas is one definition, with the entries it skips.
-/

namespace Gempba.Telemetry

set_option autoImplicit false

open Json (bytes QUOTE BACKSLASH COMMA COLON POINT MINUS)

/-- The digit of a number below 16, in lower case. -/
def hexDigit (n : ℕ) : UInt8 := if n < 10 then UInt8.ofNat (0x30 + n) else UInt8.ofNat (0x57 + n)

def escapeByte (c : UInt8) : Bytes :=
  if c = QUOTE then bytes "\\\""
  else if c = BACKSLASH then bytes "\\\\"
  else if c = 0x0A then bytes "\\n"
  else if c = 0x0D then bytes "\\r"
  else if c = 0x09 then bytes "\\t"
  else if c < 0x20 then bytes "\\u00" ++ [hexDigit (c.toNat / 16), hexDigit (c.toNat % 16)]
  else [c]

def escapeQuoted (s : Bytes) : Bytes := QUOTE :: s.flatMap escapeByte ++ [QUOTE]

def emitQuotedOrNull (s : Bytes) : Bytes := if s = [] then bytes "null" else escapeQuoted s

/-- `%llu`. -/
def decimal (n : ℕ) : Bytes :=
  if n = 0 then [0x30] else (Nat.digits 10 n).reverse.map fun d => UInt8.ofNat (0x30 + d)

def emitU64 (v : UInt64) : Bytes := decimal v.toNat

def emitU32 (v : UInt32) : Bytes := emitU64 v.toUInt64

/-! Floats are their bits. -/

def floatExponent (v : BitVec 32) : ℕ := v.toNat / 2 ^ 23 % 2 ^ 8

def floatMantissa (v : BitVec 32) : ℕ := v.toNat % 2 ^ 23

def FloatFinite (v : BitVec 32) : Prop := floatExponent v ≠ 255

instance (v : BitVec 32) : Decidable (FloatFinite v) := by
  unfold FloatFinite
  infer_instance

/-- The absolute value of a finite float. -/
def floatMagnitude (v : BitVec 32) : ℚ :=
  if floatExponent v = 0 then floatMantissa v * (2 : ℚ) ^ (-149 : ℤ)
  else (2 ^ 23 + floatMantissa v) * (2 : ℚ) ^ ((floatExponent v : ℤ) - 150)

def signText (v : BitVec 32) : Bytes := if v.msb then [MINUS] else []

/-- `%.3f` of the float as a double, which is exact before it is rounded. -/
def printFloat (v : BitVec 32) : Bytes :=
  if FloatFinite v then
    let thousandths := (roundHalfEven (floatMagnitude v * 1000)).toNat
    signText v ++ decimal (thousandths / 1000) ++ POINT ::
      [UInt8.ofNat (0x30 + thousandths / 100 % 10), UInt8.ofNat (0x30 + thousandths / 10 % 10),
        UInt8.ofNat (0x30 + thousandths % 10)]
  else signText v ++ if floatMantissa v = 0 then bytes "inf" else bytes "nan"

/-- The buffer has 32 bytes, the last of them for the terminator. -/
def emitFloat (v : BitVec 32) : Bytes := (printFloat v).take 31

/-- A loop over the entries with a flag for the first one written; the others are skipped. -/
def emitSelected {α : Type} (selected : α → Bool) (text : α → Bytes) : Bool → List α → Bytes
  | _, [] => []
  | first, x :: xs =>
    if selected x then
      (if first then [] else [COMMA]) ++ text x ++ emitSelected selected text false xs
    else emitSelected selected text first xs

def emitAll {α : Type} (text : α → Bytes) (xs : List α) : Bytes :=
  emitSelected (fun _ => true) text true xs

structure BroadcastPayload where
  runId : Bytes
  nowMs : UInt64
  elapsedSeconds : UInt64
  topology : Option TopologySnapshot
  run : Option RunDescription
  workers : Option (List WorkerFrame)
  nodes : Option (List NodeFrame)
  paused : Bool
  final : Bool

def emitBroadcastHeader (payload : BroadcastPayload) (paused : Bool) : Bytes :=
  List.flatten
    [bytes "\x7b\"version\":", emitU32 TELEMETRY_SCHEMA_VERSION.toUInt32,
      bytes ",\"run_id\":\"", payload.runId,
      bytes "\",\"ts\":", emitU64 payload.nowMs,
      bytes ",\"elapsed_seconds\":", emitU64 payload.elapsedSeconds,
      if paused then bytes ",\"paused\":true" else bytes ",\"paused\":false",
      if payload.final then bytes ",\"final\":true" else bytes ",\"final\":false"]

def emitEdge (edge : FrameEdgeCounter) : Bytes :=
  List.flatten
    [bytes "\x7b\"to\":", emitU32 edge.dstWorkerId,
      bytes ",\"bytes\":", emitU64 edge.bytes,
      bytes ",\"count\":", emitU64 edge.count,
      bytes "\x7d"]

def serializeWorkerFrame (f : WorkerFrame) : Bytes :=
  List.flatten
    [bytes "\x7b\"rank\":", emitU32 f.workerId,
      bytes ",\"seq_no\":", emitU32 f.seqNo,
      bytes ",\"rank_local_ms\":", emitU64 f.workerLocalMs,
      bytes ",\"tasks_started_total\":", emitU64 f.tasksStartedTotal,
      bytes ",\"tasks_sent_total\":", emitU64 f.tasksSentTotal,
      bytes ",\"tasks_recv_total\":", emitU64 f.tasksRecvTotal,
      bytes ",\"bytes_sent_total\":", emitU64 f.bytesSentTotal,
      bytes ",\"bytes_recv_total\":", emitU64 f.bytesRecvTotal,
      bytes ",\"send_microseconds_total\":", emitU64 f.sendMicrosecondsTotal,
      bytes ",\"recv_microseconds_total\":", emitU64 f.recvMicrosecondsTotal,
      bytes ",\"spawn_rejected_pool_full\":", emitU64 f.spawnRejectedPoolFull,
      bytes ",\"spawn_remote_rejected\":", emitU64 f.spawnRemoteRejected,
      bytes ",\"tasks_running\":", emitU32 f.tasksRunning,
      bytes ",\"scheduler_pending_count\":", emitU32 f.schedulerPendingCount,
      bytes ",\"idle_microseconds_per_thread\":", emitU64 f.idleMicrosecondsPerWorker,
      bytes ",\"idle_microseconds_starved\":", emitU64 f.idleMicrosecondsStarved,
      bytes ",\"idle_microseconds_imbalanced\":", emitU64 f.idleMicrosecondsImbalanced,
      bytes ",\"sched_running_microseconds\":", emitU64 f.schedRunningMicroseconds,
      bytes ",\"sched_waiting_microseconds\":", emitU64 f.schedWaitingMicroseconds,
      bytes ",\"first_task_ms\":", emitU64 f.firstTaskMs,
      bytes ",\"last_task_ms\":", emitU64 f.lastTaskMs,
      bytes ",\"assign_latency_microseconds_total\":", emitU64 f.assignLatencyMicrosecondsTotal,
      bytes ",\"assign_count\":", emitU64 f.assignCount,
      bytes ",\"assign_latency_microseconds_max\":", emitU64 f.assignLatencyMicrosecondsMax,
      bytes ",\"available_microseconds_queue_empty\":", emitU64 f.availableMicrosecondsQueueEmpty,
      bytes ",\"coordinator_state_msgs_total\":", emitU64 f.coordinatorStateMsgsTotal,
      bytes ",\"coordinator_score_proposals_total\":", emitU64 f.coordinatorScoreProposalsTotal,
      bytes ",\"coordinator_score_broadcasts_total\":", emitU64 f.coordinatorScoreBroadcastsTotal,
      bytes ",\"score_proposals_sent\":", emitU64 f.scoreProposalsSent,
      bytes ",\"last_score_improvement_ms\":", emitU64 f.lastScoreImprovementMs,
      bytes ",\"coordinator_full_microseconds\":", emitU64 f.coordinatorFullMicroseconds,
      bytes ",\"telemetry_microseconds_total\":", emitU64 f.telemetryMicrosecondsTotal,
      bytes ",\"process_cpu_pct\":", emitFloat f.processCpuPct,
      bytes ",\"process_rss_bytes\":", emitU64 f.processRssBytes,
      bytes ",\"process_threads\":", emitU32 f.processThreads,
      bytes ",\"edges_out\":[",
      emitSelected (fun edge => decide (edge.count ≠ 0)) emitEdge true f.edgesOut,
      bytes "]\x7d"]

def emitSocketStats (s : SocketStats) : Bytes :=
  List.flatten
    [bytes "\x7b\"socket_id\":", emitU32 s.socketId.toUInt32,
      bytes ",\"cpu_pct\":", emitFloat s.cpuPct,
      bytes ",\"mem_total_bytes\":", emitU64 s.memTotalBytes,
      bytes ",\"mem_used_bytes\":", emitU64 s.memUsedBytes,
      bytes "\x7d"]

/-- The sockets that are written. -/
def NodeFrame.emittedSockets (f : NodeFrame) : List SocketStats :=
  f.sockets.toList.take f.socketCount.toNat

def serializeNodeFrame (f : NodeFrame) : Bytes :=
  List.flatten
    [bytes "\x7b\"sentinel_rank\":", emitU32 f.sentinelWorkerId,
      bytes ",\"sentinel_local_ms\":", emitU64 f.sentinelLocalMs,
      bytes ",\"hostname\":", escapeQuoted f.hostname.text,
      bytes ",\"socket_count\":", emitU32 f.socketCount.toUInt32,
      bytes ",\"logical_cores\":", emitU32 f.logicalCores,
      bytes ",\"mem_total_bytes\":", emitU64 f.memTotalBytes,
      bytes ",\"mem_avail_bytes\":", emitU64 f.memAvailBytes,
      bytes ",\"cgroup_mem_used_bytes\":", emitU64 f.cgroupMemUsedBytes,
      bytes ",\"cgroup_mem_limit_bytes\":", emitU64 f.cgroupMemLimitBytes,
      bytes ",\"sockets\":[", emitAll emitSocketStats f.emittedSockets,
      bytes "]\x7d"]

def emitTopologySocket (s : TopologySocket) : Bytes :=
  List.flatten
    [bytes "\x7b\"socket_id\":", emitU32 s.socketId.toUInt32,
      bytes ",\"name\":", escapeQuoted s.name,
      bytes ",\"physical_cores\":", emitU32 s.physicalCores.toUInt32,
      bytes ",\"logical_cores\":", emitU32 s.logicalCores.toUInt32,
      bytes ",\"cpu_ids\":[", emitAll emitU32 s.cpuIds,
      bytes "]\x7d"]

def emitTopologyNode (node : TopologyNode) : Bytes :=
  List.flatten
    [bytes "\x7b\"hostname\":", escapeQuoted node.hostname,
      bytes ",\"sentinel_rank\":", emitU32 node.sentinelWorkerId,
      bytes ",\"total_physical_cores\":", emitU32 node.totalPhysicalCores.toUInt32,
      bytes ",\"total_logical_cores\":", emitU32 node.totalLogicalCores.toUInt32,
      bytes ",\"mem_total_bytes\":", emitU64 node.memTotalBytes,
      bytes ",\"ranks\":[", emitAll emitU32 node.workerIds,
      bytes "],\"sockets\":[", emitAll emitTopologySocket node.sockets,
      bytes "]\x7d"]

/-- The words and bits of a CPU mask in the order of the loops. -/
def cpuBits : List (ℕ × ℕ) :=
  (List.range CPU_MASK_WORDS).flatMap fun word => (List.range 64).map fun bit => (word, bit)

def cpuAllowed (mask : Vector UInt64 CPU_MASK_WORDS) (cpu : ℕ × ℕ) : Bool :=
  mask.toList.getD cpu.1 0 &&& (1 <<< UInt64.ofNat cpu.2) != 0

def roleText (run : RunDescription) (workerId : UInt32) : Bytes :=
  if run.roles[workerId.toNat]? = some .COORDINATOR then bytes ",\"role\":\"coordinator\""
  else bytes ",\"role\":\"worker\""

def emitIdentity (run : Option RunDescription) (identity : WorkerIdentity) : Bytes :=
  List.flatten
    [bytes "\x7b\"rank\":", emitU32 identity.workerId,
      bytes ",\"hostname\":", escapeQuoted identity.hostname.text,
      bytes ",\"pid\":", emitU32 identity.pid,
      bytes ",\"primary_socket\":", emitU32 identity.primarySocket.toUInt32,
      run.elim [] fun run => roleText run identity.workerId,
      bytes ",\"allowed_cpu_ids\":[",
      emitSelected (cpuAllowed identity.allowedCpuMask)
        (fun cpu => emitU32 (UInt32.ofNat (cpu.1 * 64 + cpu.2))) true cpuBits,
      bytes "]\x7d"]

def emitAnnotation (entry : Bytes × Bytes) : Bytes :=
  escapeQuoted entry.1 ++ COLON :: escapeQuoted entry.2

def emitMarker (marker : RunMarker) : Bytes :=
  List.flatten
    [bytes "\x7b\"elapsed_ms\":", emitU64 marker.elapsedMs,
      bytes ",\"label\":", escapeQuoted marker.label,
      if marker.source = .DASHBOARD then bytes ",\"source\":\"dashboard\"\x7d"
      else bytes ",\"source\":\"code\"\x7d"]

def emitRun (run : RunDescription) : Bytes :=
  List.flatten
    [bytes ",\"run\":\x7b\"scheduler\":", emitQuotedOrNull run.scheduler,
      bytes ",\"load_balancer\":", emitQuotedOrNull run.loadBalancer,
      if run.mode = .MP_MPI then bytes ",\"runtime_mode\":\"multiprocessing\""
      else bytes ",\"runtime_mode\":\"multithreading\"",
      bytes ",\"world_size\":", emitU32 run.worldSize,
      bytes ",\"threads_per_process\":", emitU32 run.threadsPerProcess,
      bytes ",\"gempba_version\":", escapeQuoted run.gempbaVersion,
      bytes ",\"annotations\":\x7b", emitAll emitAnnotation run.annotations,
      bytes "\x7d,\"markers\":[", emitAll emitMarker run.markers,
      bytes "]\x7d"]

def serializeTopology (topology : TopologySnapshot) (run : Option RunDescription) : Bytes :=
  List.flatten
    [bytes "\x7b\"nodes\":[", emitAll emitTopologyNode topology.nodes,
      bytes "],\"identities\":[", emitAll (emitIdentity run) topology.identities,
      bytes "]", run.elim [] emitRun,
      bytes "\x7d"]

def serializeBroadcast (payload : BroadcastPayload) : Bytes :=
  List.flatten
    [emitBroadcastHeader payload payload.paused,
      bytes ",\"topology\":",
      payload.topology.elim (bytes "null") fun topology => serializeTopology topology payload.run,
      bytes ",\"ranks\":[", payload.workers.elim [] (emitAll serializeWorkerFrame),
      bytes "],\"nodes\":[", payload.nodes.elim [] (emitAll serializeNodeFrame),
      bytes "]\x7d"]

def serializePausedBroadcast (payload : BroadcastPayload) : Bytes :=
  emitBroadcastHeader payload true ++ bytes "\x7d"

example : escapeQuoted (bytes "a\"\n") = bytes "\"a\\\"\\n\"" := by decide

example : emitFloat 0x42C80000 = bytes "100.000" := by decide +kernel

end Gempba.Telemetry
