import Gempba.Telemetry.Inbox
import Gempba.Telemetry.RunId

/-!
# The line that is broadcast

What the server reads off the hub becomes the payload of one line. A line ends
with its only newline, whatever the frames and the names in it.
-/

namespace Gempba.Telemetry

set_option autoImplicit false

open Json (bytes Printable)

/-- What `build_broadcast_line` reads; the id of the run is made of two random words. -/
structure HubReadings where
  runWords : UInt64 × UInt64
  nowMs : UInt64
  elapsedSeconds : UInt64
  paused : Bool
  topology : TopologySnapshot
  latestRankFrame : UInt32 → Option WorkerFrame
  latestNodeFrame : UInt32 → Option NodeFrame
  run : RunDescription

namespace HubReadings

def workers (r : HubReadings) : List WorkerFrame :=
  r.topology.nodes.flatMap fun node => node.workerIds.filterMap r.latestRankFrame

def nodes (r : HubReadings) : List NodeFrame :=
  r.topology.nodes.filterMap fun node => r.latestNodeFrame node.sentinelWorkerId

def payload (withFrames final : Bool) (r : HubReadings) : BroadcastPayload where
  runId := generateRunId r.runWords.1 r.runWords.2
  nowMs := r.nowMs
  elapsedSeconds := r.elapsedSeconds
  topology := if withFrames then some r.topology else none
  run := if withFrames then some r.run else none
  workers := if withFrames then some r.workers else none
  nodes := if withFrames then some r.nodes else none
  paused := r.paused
  final := final

end HubReadings

/-- The text of a line without its newline. -/
def broadcastText (withFrames final : Bool) (r : HubReadings) : Bytes :=
  if withFrames then serializeBroadcast (r.payload withFrames final)
  else serializePausedBroadcast (r.payload withFrames final)

def buildBroadcastLine (withFrames final : Bool) (r : HubReadings) : Bytes :=
  broadcastText withFrames final r ++ [NEWLINE]

/-! ## No other newline -/

theorem printable_flatten {xs : List Bytes} : Printable xs.flatten ↔ ∀ x ∈ xs, Printable x := by
  unfold Printable
  simp only [List.mem_flatten]
  constructor
  · intro h x hx c hc
    exact h c ⟨x, hx, hc⟩
  · rintro h c ⟨x, hx, hc⟩
    exact h x hx c hc

theorem printable_emitAll {α : Type} {text : α → Bytes} (h : ∀ x, Printable (text x))
    (selected : α → Bool) (first : Bool) (xs : List α) :
    Printable (emitSelected selected text first xs) := by
  induction xs generalizing first with
  | nil => exact List.forall_mem_nil _
  | cons x xs ih =>
    rw [emitSelected]
    split
    · refine Printable.append (Printable.append ?_ (h x)) (ih false)
      split <;> decide
    · exact ih first

theorem printable_emitU64 (v : UInt64) : Printable (emitU64 v) := (isValue_emitU64 v).printable

theorem printable_emitU32 (v : UInt32) : Printable (emitU32 v) := (isValue_emitU64 _).printable

theorem printable_printFloat (v : BitVec 32) : Printable (emitFloat v) := by
  by_cases hfinite : FloatFinite v
  · exact printable_emitFloat hfinite
  · have hprinted : Printable (printFloat v) := by
      rw [printFloat, if_neg hfinite]
      apply (printable_signText v).append
      split <;> decide
    intro c hc
    exact hprinted c (List.mem_of_mem_take hc)

theorem printable_serializeWorkerFrame (f : WorkerFrame) : Printable (serializeWorkerFrame f) := by
  have hedges := printable_emitAll (fun edge => (isValue_emitEdge edge).printable)
  rw [serializeWorkerFrame, printable_flatten]
  simp only [List.forall_mem_cons, printable_emitU64, printable_emitU32, printable_printFloat,
    hedges, true_and]
  decide

theorem printable_emitSocketStats (s : SocketStats) : Printable (emitSocketStats s) := by
  rw [emitSocketStats, printable_flatten]
  simp only [List.forall_mem_cons, printable_emitU64, printable_emitU32, printable_printFloat,
    true_and]
  decide

theorem printable_serializeNodeFrame (f : NodeFrame) : Printable (serializeNodeFrame f) := by
  have hhostname := (isValue_escapeQuoted f.hostname.text).printable
  have hsockets : Printable (emitAll emitSocketStats f.emittedSockets) :=
    printable_emitAll printable_emitSocketStats _ true _
  rw [serializeNodeFrame, printable_flatten]
  simp only [List.forall_mem_cons, printable_emitU64, printable_emitU32, hhostname, hsockets,
    true_and]
  decide

theorem printable_emitBroadcastHeader {payload : BroadcastPayload} (h : Printable payload.runId)
    (paused : Bool) : Printable (emitBroadcastHeader payload paused) := by
  have hpaused : Printable
      (if paused then bytes ",\"paused\":true" else bytes ",\"paused\":false") := by
    cases paused <;> decide
  have hfinal : Printable
      (if payload.final then bytes ",\"final\":true" else bytes ",\"final\":false") := by
    cases payload.final <;> decide
  rw [emitBroadcastHeader, printable_flatten]
  simp only [List.forall_mem_cons, printable_emitU64, printable_emitU32, h, hpaused, hfinal,
    true_and]
  decide

theorem printable_serializeBroadcast {payload : BroadcastPayload} (h : Printable payload.runId) :
    Printable (serializeBroadcast payload) := by
  have hheader := printable_emitBroadcastHeader h payload.paused
  have htopology : Printable (payload.topology.elim (bytes "null") fun topology =>
      serializeTopology topology payload.run) := by
    cases payload.topology with
    | none => exact isValue_null.printable
    | some topology => exact (isValue_serializeTopology topology payload.run).printable
  have hworkers : Printable (payload.workers.elim [] (emitAll serializeWorkerFrame)) := by
    rw [elim_emitAll]
    exact printable_emitAll printable_serializeWorkerFrame _ true _
  have hnodes : Printable (payload.nodes.elim [] (emitAll serializeNodeFrame)) := by
    rw [elim_emitAll]
    exact printable_emitAll printable_serializeNodeFrame _ true _
  rw [serializeBroadcast, printable_flatten]
  simp only [List.forall_mem_cons, hheader, htopology, hworkers, hnodes, true_and]
  decide

theorem printable_generateRunId (first second : UInt64) :
    Printable (generateRunId first second) := by
  have hunescaped := unescaped_formatUuidV4 (drawnBytes first second)
  intro c hc
  exact (hunescaped c hc).1

theorem printable_broadcastText (withFrames final : Bool) (r : HubReadings) :
    Printable (broadcastText withFrames final r) := by
  have hrunId : Printable (r.payload withFrames final).runId := by
    simp only [HubReadings.payload]
    exact printable_generateRunId r.runWords.1 r.runWords.2
  have hclose : Printable (bytes "\x7d") := by decide
  rw [broadcastText]
  generalize r.payload withFrames final = payload at hrunId ⊢
  split
  · exact printable_serializeBroadcast hrunId
  · rw [serializePausedBroadcast]
    exact (printable_emitBroadcastHeader hrunId true).append hclose

theorem newline_notMem_broadcastText (withFrames final : Bool) (r : HubReadings) :
    NEWLINE ∉ broadcastText withFrames final r := by
  intro hmem
  have hprintable := printable_broadcastText withFrames final r NEWLINE hmem
  exact absurd hprintable (by decide)

end Gempba.Telemetry
