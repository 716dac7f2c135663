import Gempba.Library.Machine
import Gempba.Telemetry.Frames
import Gempba.Telemetry.Hub
import Mathlib.Logic.Function.Basic

/-!
# The ranks and the aggregator that collects their frames

Every rank ticks on a thread of its own, and the aggregator, rank 0, has a
second thread that takes the commands of the dashboard. A step is one access to
what threads share. Messages of one sender and one tag arrive in the order in
which they were sent; node frames are left out.
-/

namespace Gempba.Telemetry

set_option autoImplicit false

inductive FrameTag where
  | WORKER_FRAME | FINAL_WORKER_FRAME
  deriving DecidableEq, Repr

/-- A frame that was sent. The number of snapshot requests accepted before it was sampled is
bookkeeping of the model. -/
structure Sample where
  frame : WorkerFrame
  tag : FrameTag
  accepted : ℕ
  deriving DecidableEq

structure Link where
  inFlight : List Sample
  arrived : List Sample

def Link.pending (l : Link) : List Sample := l.arrived ++ l.inFlight

inductive RankPoint where
  | idle
  | controls
  | exchange
  | emit (snapshot : UInt32)
  | fanOut
  | sending (pending : List ControlMsg)
  | drain
  | poll (closing : Bool) (tag : FrameTag)
  | await
  | closed
  deriving DecidableEq

def RankPoint.pending : RankPoint → List ControlMsg
  | .sending pending => pending
  | _ => []

/-- Where the thread that takes commands is. It holds the lock of the queue from the acceptance
of a snapshot request to its end. -/
inductive ClientPoint where
  | idle
  | queueing (m : ControlMsg)
  | requestedMs (id : UInt32) (now : ℕ)
  | due (id : UInt32)
  | requested (id : UInt32)
  | pushing (id : UInt32)
  deriving DecidableEq

def ClientPoint.locks : ClientPoint → Bool
  | .idle | .queueing _ => false
  | .requestedMs _ _ | .due _ | .requested _ | .pushing _ => true

def ClientPoint.queue : Option ControlMsg → ClientPoint
  | some m => .queueing m
  | none => .idle

structure Rank where
  hub : Hub
  point : RankPoint
  channel : List ControlMsg
  inbound : List ControlMsg
  links : FrameTag → Link
  latestWorker : Option Sample
  published : List Sample

structure Collection (n : ℕ) where
  rank : Fin (n + 1) → Rank
  client : ClientPoint
  finalFramesReceived : ℕ
  accepted : ℕ

namespace Hub

/-- The tick's `exchange` of the request that is due. -/
def exchangeDue (h : Hub) : UInt32 × Hub := (h.snapshotDue, { h with snapshotDue := 0 })

def Emits (snapshot : UInt32) (now : ℕ) (h : Hub) : Prop :=
  snapshot ≠ 0 ∨ (h.paused = false ∧ h.intervalMs.toNat ≤ now - h.lastRankEmitMs)

instance (snapshot : UInt32) (now : ℕ) (h : Hub) : Decidable (h.Emits snapshot now) := by
  unfold Emits
  infer_instance

def emit (snapshot : UInt32) (now : ℕ) (h : Hub) : Hub :=
  { h with
    snapshotAnswered := if snapshot ≠ 0 then snapshot else h.snapshotAnswered
    seqNo := h.seqNo + 1
    lastRankEmitMs := now }

/-- With nothing in between, the two parts of a tick are the emission of the hub alone. -/
theorem emitIfDue_eq (now : ℕ) (h : Hub) :
    h.emitIfDue now =
      if h.exchangeDue.2.Emits h.exchangeDue.1 now then h.exchangeDue.2.emit h.exchangeDue.1 now
      else h.exchangeDue.2 := rfl

def snapshotWorkerFrame (workerId : UInt32) (measured : WorkerFrame) (h : Hub) : WorkerFrame :=
  { measured with
    version := TELEMETRY_SCHEMA_VERSION
    workerId := workerId
    seqNo := h.seqNo
    snapshotId := h.snapshotAnswered }

def TooSoon (now : ℕ) (h : Hub) : Prop :=
  h.snapshotRequested ≠ 0 ∧ now - h.snapshotRequestedMs < 50

instance (now : ℕ) (h : Hub) : Decidable (h.TooSoon now) := by
  unfold TooSoon
  infer_instance

end Hub

namespace Rank

def setHub (h : Hub) (x : Rank) : Rank := { x with hub := h }

def setPoint (p : RankPoint) (x : Rank) : Rank := { x with point := p }

def publish (sample : Sample) (x : Rank) : Rank :=
  { x with
    links := Function.update x.links sample.tag
      { x.links sample.tag with inFlight := (x.links sample.tag).inFlight ++ [sample] }
    published := x.published ++ [sample] }

def sample (workerId : UInt32) (measured : WorkerFrame) (tag : FrameTag) (accepted : ℕ)
    (x : Rank) : Rank :=
  x.publish ⟨x.hub.snapshotWorkerFrame workerId measured, tag, accepted⟩

def deliver (tag : FrameTag) (x : Rank) : Option Rank :=
  match (x.links tag).inFlight with
  | sample :: inFlight =>
    some { x with
      links := Function.update x.links tag ⟨inFlight, (x.links tag).arrived ++ [sample]⟩ }
  | [] => none

def receive (tag : FrameTag) (x : Rank) : Option Rank :=
  match (x.links tag).arrived with
  | sample :: arrived =>
    some { x with
      links := Function.update x.links tag { x.links tag with arrived := arrived }
      latestWorker := some sample }
  | [] => none

def deliverControl (x : Rank) : Option Rank :=
  match x.channel with
  | m :: channel => some { x with channel := channel, inbound := x.inbound ++ [m] }
  | [] => none

/-- An iteration of the receiving loop, or its end. -/
def tryRecvControl (x : Rank) : Rank :=
  match x.inbound with
  | m :: inbound => { x with hub := x.hub.readControl m, inbound := inbound }
  | [] => x.setPoint .exchange

def start (isSentinel : Bool) : Rank where
  hub := .initial isSentinel
  point := .idle
  channel := []
  inbound := []
  links _ := ⟨[], []⟩
  latestWorker := none
  published := []

end Rank

inductive CollectionEvent (n : ℕ) where
  | setIntervalMs (r : Fin (n + 1)) (intervalMs : UInt32)
  | applyControlFromClient (kind : ControlKind) (value : UInt32) (now : ℕ)
  | client
  | deliverControl (r : Fin (n + 1))
  | tickIfDue (r : Fin (n + 1))
  | tryRecvControl (r : Fin (n + 1))
  | exchangeDue (r : Fin (n + 1))
  | emit (r : Fin (n + 1)) (now : ℕ) (measured : WorkerFrame)
  | swapFanout (r : Fin (n + 1))
  | sendControl (r : Fin (n + 1))
  | drainInboundFrames (now : ℕ)
  | deliver (r : Fin (n + 1)) (tag : FrameTag)
  | receive (r : Fin (n + 1))
  | probe
  | shutdown (r : Fin (n + 1)) (measured : WorkerFrame)
  | await (expired : Bool)

namespace Collection

variable {n : ℕ}

abbrev Step (n : ℕ) := Transition.Outcome Empty (Collection n)

def set (r : Fin (n + 1)) (x : Rank) (s : Collection n) : Collection n :=
  { s with rank := Function.update s.rank r x }

def setHub (r : Fin (n + 1)) (h : Hub) (s : Collection n) : Collection n :=
  s.set r ((s.rank r).setHub h)

def store (h : Hub) (p : ClientPoint) (s : Collection n) : Collection n :=
  { s.setHub 0 h with client := p }

def setPoint (r : Fin (n + 1)) (p : RankPoint) (s : Collection n) : Collection n :=
  s.set r ((s.rank r).setPoint p)

/-- `snapshot_outstanding` of the aggregator. -/
def SnapshotOutstanding (now : ℕ) (s : Collection n) : Prop :=
  let hub := (s.rank 0).hub
  hub.snapshotRequested ≠ 0 ∧ now - hub.snapshotRequestedMs < 1000 ∧
    ∃ r, ∀ sample ∈ (s.rank r).latestWorker, sample.frame.snapshotId < hub.snapshotRequested

instance (x : Option Sample) (id : UInt32) :
    Decidable (∀ sample ∈ x, sample.frame.snapshotId < id) := by
  cases x with
  | none => exact isTrue fun _ h => by cases h
  | some sample =>
    exact decidable_of_iff (sample.frame.snapshotId < id)
      ⟨fun h _ hs => Option.some.inj hs ▸ h, fun h => h sample rfl⟩

instance (now : ℕ) (s : Collection n) : Decidable (s.SnapshotOutstanding now) := by
  unfold SnapshotOutstanding
  infer_instance

def setIntervalMs (r : Fin (n + 1)) (intervalMs : UInt32) (s : Collection n) : Step n :=
  .moved (s.setHub r ((s.rank r).hub.setIntervalMs intervalMs))

/-- A setting is stored, or a snapshot request accepted under the lock. -/
def applyControlFromClient (kind : ControlKind) (value : UInt32) (now : ℕ) (s : Collection n) :
    Step n :=
  if s.client ≠ .idle then .blocked
  else if kind = .SNAPSHOT then
    if (s.rank 0).hub.TooSoon now then .moved s
    else
      .moved { s with
        client := .requestedMs ((s.rank 0).hub.snapshotRequested + 1) now
        accepted := s.accepted + 1 }
  else
    let applied := (s.rank 0).hub.applyControlFromClient kind value now
    .moved (s.store applied.1 (ClientPoint.queue applied.2))

def clientStep (s : Collection n) : Step n :=
  let hub := (s.rank 0).hub
  match s.client with
  | .idle => .blocked
  | .queueing m => .moved (s.store { hub with pendingFanout := hub.pendingFanout ++ [m] } .idle)
  | .requestedMs id now => .moved (s.store { hub with snapshotRequestedMs := now } (.due id))
  | .due id => .moved (s.store { hub with snapshotDue := id } (.requested id))
  | .requested id => .moved (s.store { hub with snapshotRequested := id } (.pushing id))
  | .pushing id =>
    .moved (s.store { hub with pendingFanout := hub.pendingFanout ++ [⟨.SNAPSHOT, id⟩] } .idle)

def update (r : Fin (n + 1)) (x : Option Rank) (s : Collection n) : Step n :=
  match x with
  | some x => .moved (s.set r x)
  | none => .blocked

def tickIfDue (r : Fin (n + 1)) (s : Collection n) : Step n :=
  if (s.rank r).point = .idle then .moved (s.setPoint r .controls) else .blocked

def tryRecvControl (r : Fin (n + 1)) (s : Collection n) : Step n :=
  if (s.rank r).point = .controls then .moved (s.set r (s.rank r).tryRecvControl) else .blocked

def exchangeDue (r : Fin (n + 1)) (s : Collection n) : Step n :=
  if (s.rank r).point = .exchange then
    let exchanged := (s.rank r).hub.exchangeDue
    .moved (s.set r (((s.rank r).setHub exchanged.2).setPoint (.emit exchanged.1)))
  else .blocked

def workerId (r : Fin (n + 1)) : UInt32 := UInt32.ofNat r

def emit (r : Fin (n + 1)) (now : ℕ) (measured : WorkerFrame) (s : Collection n) : Step n :=
  match (s.rank r).point with
  | .emit snapshot =>
    if (s.rank r).hub.Emits snapshot now then
      .moved (s.set r ((((s.rank r).setHub ((s.rank r).hub.emit snapshot now)).sample (workerId r)
        measured .WORKER_FRAME s.accepted).setPoint .fanOut))
    else .moved (s.setPoint r .fanOut)
  | _ => .blocked

/-- Waits for the lock of the queue. -/
def swapFanout (r : Fin (n + 1)) (s : Collection n) : Step n :=
  if (s.rank r).point = .fanOut ∧ ¬ (r = 0 ∧ s.client.locks = true) then
    let hub := (s.rank r).hub
    .moved (s.set r (((s.rank r).setHub { hub with pendingFanout := [] }).setPoint
      (.sending hub.pendingFanout)))
  else .blocked

def sendToOthers (r : Fin (n + 1)) (m : ControlMsg) (pending : List ControlMsg)
    (s : Collection n) : Collection n :=
  { s with
    rank := fun id =>
      if id = r then (s.rank id).setPoint (.sending pending)
      else { s.rank id with channel := (s.rank id).channel ++ [m] } }

def sendControl (r : Fin (n + 1)) (s : Collection n) : Step n :=
  match (s.rank r).point with
  | .sending (m :: pending) => .moved (s.sendToOthers r m pending)
  | .sending [] => .moved (s.setPoint r (if r = 0 then .drain else .idle))
  | _ => .blocked

/-- The aggregator polls unless it is paused with no snapshot outstanding. -/
def drainInboundFrames (now : ℕ) (s : Collection n) : Step n :=
  if (s.rank 0).point = .drain then
    if (s.rank 0).hub.paused = false ∨ s.SnapshotOutstanding now then
      .moved (s.setPoint 0 (.poll false .WORKER_FRAME))
    else .moved (s.setPoint 0 .idle)
  else .blocked

def receive (r : Fin (n + 1)) (s : Collection n) : Step n :=
  match (s.rank 0).point with
  | .poll _ .WORKER_FRAME => s.update r ((s.rank r).receive .WORKER_FRAME)
  | .poll _ .FINAL_WORKER_FRAME =>
    (s.update r ((s.rank r).receive .FINAL_WORKER_FRAME)).map fun t =>
      { t with finalFramesReceived := t.finalFramesReceived + 1 }
  | _ => .blocked

def Drained (tag : FrameTag) (s : Collection n) : Prop :=
  ∀ r, ((s.rank r).links tag).arrived = []

instance (tag : FrameTag) (s : Collection n) : Decidable (s.Drained tag) := by
  unfold Drained
  infer_instance

/-- A probe that finds nothing. Regular frames are drained first. -/
def probe (s : Collection n) : Step n :=
  match (s.rank 0).point with
  | .poll closing .WORKER_FRAME =>
    if s.Drained .WORKER_FRAME then .moved (s.setPoint 0 (.poll closing .FINAL_WORKER_FRAME))
    else .blocked
  | .poll closing .FINAL_WORKER_FRAME =>
    if s.Drained .FINAL_WORKER_FRAME then
      .moved (s.setPoint 0 (if closing then .await else .idle))
    else .blocked
  | _ => .blocked

/-- The final frame of a rank; the aggregator stays to collect those of the others. -/
def shutdown (r : Fin (n + 1)) (measured : WorkerFrame) (s : Collection n) : Step n :=
  if (s.rank r).point = .idle then
    let hub := (s.rank r).hub
    .moved (s.set r ((((s.rank r).setHub { hub with seqNo := hub.seqNo + 1 }).sample (workerId r)
      measured .FINAL_WORKER_FRAME s.accepted).setPoint
        (if r = 0 then .poll true .WORKER_FRAME else .closed)))
  else .blocked

/-- The loop that waits for the final frames of the other ranks. -/
def await (expired : Bool) (s : Collection n) : Step n :=
  if (s.rank 0).point = .await then
    if 1 < n + 1 ∧ s.finalFramesReceived < n + 1 ∧ expired = false then
      .moved (s.setPoint 0 (.poll true .WORKER_FRAME))
    else .moved (s.setPoint 0 .closed)
  else .blocked

def step : CollectionEvent n → Collection n → Step n
  | .setIntervalMs r intervalMs => setIntervalMs r intervalMs
  | .applyControlFromClient kind value now => applyControlFromClient kind value now
  | .client => clientStep
  | .deliverControl r => fun s => s.update r (s.rank r).deliverControl
  | .tickIfDue r => tickIfDue r
  | .tryRecvControl r => tryRecvControl r
  | .exchangeDue r => exchangeDue r
  | .emit r now measured => emit r now measured
  | .swapFanout r => swapFanout r
  | .sendControl r => sendControl r
  | .drainInboundFrames now => drainInboundFrames now
  | .deliver r tag => fun s => s.update r ((s.rank r).deliver tag)
  | .receive r => receive r
  | .probe => probe
  | .shutdown r measured => shutdown r measured
  | .await expired => await expired

def start (isSentinel : Fin (n + 1) → Bool) : Collection n where
  rank r := .start (isSentinel r)
  client := .idle
  finalFramesReceived := 0
  accepted := 0

end Collection

def collectionMachine (n : ℕ) : Transition.Machine (Collection n) (CollectionEvent n) Empty where
  initial s := ∃ isSentinel, s = Collection.start isSentinel
  step := Collection.step

end Gempba.Telemetry
