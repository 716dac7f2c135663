import Gempba.Library.LentBuffers
import Gempba.Telemetry.Collection
import Gempba.Telemetry.WorkerFrameCodec

/-!
# The transport of frames and control messages over MPI

Every rank has a transport on a communicator of its own. A step is one call of
MPI that another rank can notice, or a step of MPI itself: a message arrives,
or is copied out of the buffer of its sender. The transport of a rank is used by
one thread. Frames of hosts are their bytes.
-/

namespace Gempba.Telemetry

set_option autoImplicit false

open MemoryImage Transition

/-- The tags of the communicator. -/
inductive WireTag where
  | WORKER_FRAME | NODE_FRAME | CONTROL | FINAL_WORKER_FRAME
  deriving DecidableEq, Repr

def WireTag.all : List WireTag := [.WORKER_FRAME, .NODE_FRAME, .CONTROL, .FINAL_WORKER_FRAME]

def FrameTag.wire : FrameTag → WireTag
  | .WORKER_FRAME => .WORKER_FRAME
  | .FINAL_WORKER_FRAME => .FINAL_WORKER_FRAME

def NODE_FRAME_SIZE : ℕ := 312

/-- The largest count of bytes that MPI takes. -/
def MAX_COUNT : ℕ := 2147483647

structure NodeImage where
  bytes : Bytes
  length_bytes : bytes.length = NODE_FRAME_SIZE
  deriving DecidableEq

namespace ControlKind

def code : ControlKind → UInt16
  | UNSPECIFIED => 0
  | BE_NODE_SENTINEL => 1
  | SET_INTERVAL_MS => 2
  | PAUSE => 3
  | RESUME => 4
  | SNAPSHOT => 5

/-- A number that is no kind is ignored like `UNSPECIFIED`. -/
def ofCode (v : UInt16) : ControlKind :=
  if v = 1 then BE_NODE_SENTINEL
  else if v = 2 then SET_INTERVAL_MS
  else if v = 3 then PAUSE
  else if v = 4 then RESUME
  else if v = 5 then SNAPSHOT
  else UNSPECIFIED

theorem ofCode_code (kind : ControlKind) : ofCode kind.code = kind := by
  cases kind <;> rfl

end ControlKind

def controlMsg : List (Part UInt8 ControlMsg) := [
  u16Member (fun _ => TELEMETRY_SCHEMA_VERSION) fun _ m => m,
  u16Member (·.kind.code) fun v m => { m with kind := .ofCode v },
  u32Member (·.value) fun v m => { m with value := v }]

theorem assign_controlMsg (m m' : ControlMsg) : assign m controlMsg m' = m := by
  simp only [controlMsg, assign, assign_u16Member, assign_u32Member, ControlKind.ofCode_code]

/-- What is sent under a tag. -/
inductive Payload where
  | frame (f : WorkerFrame)
  | node (image : NodeImage)
  | control (m : ControlMsg)
  deriving DecidableEq

namespace Payload

def bytes (fill : ℕ → UInt8) : Payload → Bytes
  | frame f => encodeWorkerFrame fill f
  | node image => image.bytes
  | control m => image fill 0 controlMsg m

def suits : Payload → WireTag → Bool
  | frame _, tag => tag = .WORKER_FRAME ∨ tag = .FINAL_WORKER_FRAME
  | node _, tag => tag = .NODE_FRAME
  | control _, tag => tag = .CONTROL

/-- What the bytes of a message are taken for. -/
def read (tag : WireTag) (data : Bytes) : Option Payload :=
  match tag with
  | .WORKER_FRAME | .FINAL_WORKER_FRAME => (decodeWorkerFrame data .zero).map .frame
  | .NODE_FRAME => if h : data.length = NODE_FRAME_SIZE then some (.node ⟨data, h⟩) else none
  | .CONTROL =>
    if data.length = size controlMsg then
      some (.control (restore controlMsg data ⟨.UNSPECIFIED, 0⟩))
    else none

/-- Whatever is sent is read as it was. -/
theorem read_bytes (fill : ℕ → UInt8) {p : Payload} {tag : WireTag} (h : p.suits tag = true) :
    read tag (p.bytes fill) = some p := by
  cases p with
  | frame f =>
    have htag : tag = .WORKER_FRAME ∨ tag = .FINAL_WORKER_FRAME := of_decide_eq_true h
    obtain rfl | rfl := htag
    · rw [read, bytes, decode_encodeWorkerFrame]
      rfl
    · rw [read, bytes, decode_encodeWorkerFrame]
      rfl
  | node image =>
    obtain rfl : tag = .NODE_FRAME := of_decide_eq_true h
    rw [read, bytes, dif_pos image.length_bytes]
  | control m =>
    obtain rfl : tag = .CONTROL := of_decide_eq_true h
    have hrestore := restore_image fill 0 controlMsg m ⟨.UNSPECIFIED, 0⟩ []
    rw [List.append_nil, assign_controlMsg] at hrestore
    rw [read, bytes, length_image, if_pos rfl, hrestore]

end Payload

/-- Where the thread of a transport is. An inert one was made before MPI was initialized. -/
inductive TransportPoint where
  | inert
  | idle
  | polling (tag : WireTag)
  | receiving
  | draining
  | closed
  deriving DecidableEq, Repr

abbrev Wire (n : ℕ) := Lent.Route (Fin (n + 1)) WireTag

structure Transport (n : ℕ) where
  point : TransportPoint
  inboundControls : List (Fin (n + 1) × ControlMsg)
  finalFramesReceived : UInt32
  returned : List (Fin (n + 1) × ControlMsg)

structure Transports (n : ℕ) where
  rank : Fin (n + 1) → Transport n
  net : Lent.Net (Fin (n + 1)) WireTag Bytes
  /-- What has been sent, received for the callers, and received by destructors. -/
  sent : Wire n → List Payload
  taken : Wire n → List Payload
  dropped : Wire n → List Bytes

inductive TransportFault where
  | freed
  | badCount
  | truncated
  deriving DecidableEq, Repr

inductive TransportEvent (n : ℕ) where
  | publish (r : Fin (n + 1)) (tag : FrameTag) (f : WorkerFrame) (fill : ℕ → UInt8)
    (tests : ℕ → Bool)
  | publishNode (r : Fin (n + 1)) (image : NodeImage) (tests : ℕ → Bool)
  | sendControl (r : Fin (n + 1)) (dstRank : UInt32) (m : ControlMsg) (fill : ℕ → UInt8)
    (tests : ℕ → Bool)
  | poll (r : Fin (n + 1))
  | tryRecvControl (r : Fin (n + 1))
  | destroy (r : Fin (n + 1)) (finalized : Bool)
  | probe (r : Fin (n + 1)) (source : Option (Fin (n + 1))) (tests : ℕ → Bool)
  | drop (r : Fin (n + 1)) (found : Option (Fin (n + 1) × WireTag))
  | arrive (route : Wire n)
  | copy (route : Wire n) (i : ℕ)

namespace Transports

variable {n : ℕ}

abbrev Step (n : ℕ) := Outcome TransportFault (Transports n)

def update (r : Fin (n + 1)) (x : Transport n) (s : Transports n) : Transports n :=
  { s with rank := Function.update s.rank r x }

def setPoint (r : Fin (n + 1)) (p : TransportPoint) (s : Transports n) : Transports n :=
  s.update r { s.rank r with point := p }

def setNet (net : Lent.Net (Fin (n + 1)) WireTag Bytes) (s : Transports n) : Transports n :=
  { s with net }

/-- `post_isend` after `reap_completed_sends`; `tests` are the flags of `MPI_Test`. -/
def postIsend (route : Wire n) (p : Payload) (fill : ℕ → UInt8) (tests : ℕ → Bool)
    (s : Transports n) : Step n :=
  let buffer := p.bytes fill
  if MAX_COUNT < buffer.length then .raised .badCount
  else
    .moved { s with
      net := (s.net.reap route.source tests).post route buffer
      sent := Function.update s.sent route (s.sent route ++ [p]) }

/-- A call that an inert transport ignores. -/
def call (r : Fin (n + 1)) (step : Step n) (s : Transports n) : Step n :=
  match (s.rank r).point with
  | .inert => .moved s
  | .idle => step
  | .polling _ | .receiving | .draining | .closed => .blocked

def publish (r : Fin (n + 1)) (tag : FrameTag) (f : WorkerFrame) (fill : ℕ → UInt8)
    (tests : ℕ → Bool) (s : Transports n) : Step n :=
  s.call r (s.postIsend ⟨r, 0, tag.wire⟩ (.frame f) fill tests)

def publishNode (r : Fin (n + 1)) (image : NodeImage) (tests : ℕ → Bool) (s : Transports n) :
    Step n :=
  s.call r (s.postIsend ⟨r, 0, .NODE_FRAME⟩ (.node image) (fun _ => 0) tests)

/-- A rank outside the world is ignored. -/
def sendControl (r : Fin (n + 1)) (dstRank : UInt32) (m : ControlMsg) (fill : ℕ → UInt8)
    (tests : ℕ → Bool) (s : Transports n) : Step n :=
  s.call r
    (if h : dstRank.toNat < n + 1 then
      s.postIsend ⟨r, ⟨dstRank.toNat, h⟩, .CONTROL⟩ (.control m) fill tests
    else .moved s)

/-- Only the aggregator polls. -/
def poll (r : Fin (n + 1)) (s : Transports n) : Step n :=
  s.call r (if r = 0 then .moved (s.setPoint r (.polling .WORKER_FRAME)) else .moved s)

def tryRecvControl (r : Fin (n + 1)) (s : Transports n) : Step n :=
  s.call r (.moved (s.setPoint r .receiving))

/-- Waits for the sends of the rank. When MPI is still up, what has arrived is then received. -/
def destroy (r : Fin (n + 1)) (finalized : Bool) (s : Transports n) : Step n :=
  match (s.rank r).point with
  | .inert => .moved (s.setPoint r .closed)
  | .idle =>
    match s.net.release r with
    | none => .blocked
    | some net => .moved ((s.setNet net).setPoint r (if finalized then .closed else .draining))
  | .polling _ | .receiving | .draining | .closed => .blocked

def Empty (r : Fin (n + 1)) (tag : WireTag) (s : Transports n) : Prop :=
  ∀ source, (s.net.lane ⟨source, r, tag⟩).visible = 0

instance (r : Fin (n + 1)) (tag : WireTag) (s : Transports n) : Decidable (s.Empty r tag) := by
  unfold Empty
  infer_instance

def recv (route : Wire n) (s : Transports n) : Outcome TransportFault (Bytes × Transports n) :=
  ((s.net.receive route).mapError fun _ => TransportFault.freed).map fun r => (r.1, s.setNet r.2)

def take (route : Wire n) (p : Payload) (s : Transports n) : Transports n :=
  { s with taken := Function.update s.taken route (s.taken route ++ [p]) }

/-- A frame that was received is handed to the sink; bytes that fit no frame are not. -/
def sinkFrame (r : Fin (n + 1)) (route : Wire n) (s : Transports n) : Step n :=
  (s.recv route).bind fun received =>
    let t := received.2
    let t := if route.tag = .FINAL_WORKER_FRAME then
        t.update r { t.rank r with finalFramesReceived := (t.rank r).finalFramesReceived + 1 }
      else t
    match Payload.read route.tag received.1 with
    | some p => .moved (t.take route p)
    | none => .moved t

def sinkNode (route : Wire n) (s : Transports n) : Step n :=
  (s.recv route).bind fun received =>
    match Payload.read route.tag received.1 with
    | some p => .moved (received.2.take route p)
    | none => .raised .truncated

def queueControl (r : Fin (n + 1)) (route : Wire n) (s : Transports n) : Step n :=
  (s.recv route).bind fun received =>
    match Payload.read route.tag received.1 with
    | some (.control m) =>
      let t := received.2.take route (.control m)
      .moved (t.update r
        { t.rank r with inboundControls := (t.rank r).inboundControls ++ [(route.source, m)] })
    | _ => .raised .truncated

/-- The end of `try_recv_control`: the oldest message is returned. -/
def returnControl (r : Fin (n + 1)) (s : Transports n) : Transports n :=
  let x := s.rank r
  match x.inboundControls with
  | [] => s.setPoint r .idle
  | m :: inbound =>
    s.update r
      { x with point := .idle, inboundControls := inbound, returned := x.returned ++ [m] }

def found (r source : Fin (n + 1)) (s : Transports n) : Step n :=
  match (s.rank r).point with
  | .polling .WORKER_FRAME => s.sinkFrame r ⟨source, r, .WORKER_FRAME⟩
  | .polling .FINAL_WORKER_FRAME => s.sinkFrame r ⟨source, r, .FINAL_WORKER_FRAME⟩
  | .polling .NODE_FRAME => s.sinkNode ⟨source, r, .NODE_FRAME⟩
  | .receiving => s.queueControl r ⟨source, r, .CONTROL⟩
  | .polling .CONTROL | .inert | .idle | .draining | .closed => .blocked

def exhausted (r : Fin (n + 1)) (tests : ℕ → Bool) (s : Transports n) : Step n :=
  match (s.rank r).point with
  | .polling .WORKER_FRAME =>
    if s.Empty r .WORKER_FRAME then .moved (s.setPoint r (.polling .FINAL_WORKER_FRAME))
    else .blocked
  | .polling .FINAL_WORKER_FRAME =>
    if s.Empty r .FINAL_WORKER_FRAME then .moved (s.setPoint r (.polling .NODE_FRAME))
    else .blocked
  | .polling .NODE_FRAME =>
    if s.Empty r .NODE_FRAME then .moved ((s.setNet (s.net.reap r tests)).setPoint r .idle)
    else .blocked
  | .receiving => if s.Empty r .CONTROL then .moved (s.returnControl r) else .blocked
  | .polling .CONTROL | .inert | .idle | .draining | .closed => .blocked

def probe (r : Fin (n + 1)) (source : Option (Fin (n + 1))) (tests : ℕ → Bool)
    (s : Transports n) : Step n :=
  match source with
  | some source => s.found r source
  | none => s.exhausted r tests

/-- A message received by the destructor, or the end of the transport. -/
def drop (r : Fin (n + 1)) (found : Option (Fin (n + 1) × WireTag)) (s : Transports n) : Step n :=
  if (s.rank r).point = .draining then
    match found with
    | some (source, tag) =>
      let route : Wire n := ⟨source, r, tag⟩
      (s.recv route).bind fun received =>
        let t := received.2
        .moved { t with
          dropped := Function.update t.dropped route (t.dropped route ++ [received.1]) }
    | none =>
      if ∀ tag ∈ WireTag.all, s.Empty r tag then .moved (s.setPoint r .closed) else .blocked
  else .blocked

def arrive (route : Wire n) (s : Transports n) : Step n :=
  match s.net.arrive route with
  | some net => .moved (s.setNet net)
  | none => .blocked

def copy (route : Wire n) (i : ℕ) (s : Transports n) : Step n :=
  ((s.net.copy route i).mapError fun _ => TransportFault.freed).map s.setNet

def step : TransportEvent n → Transports n → Step n
  | .publish r tag f fill tests => publish r tag f fill tests
  | .publishNode r image tests => publishNode r image tests
  | .sendControl r dstRank m fill tests => sendControl r dstRank m fill tests
  | .poll r => poll r
  | .tryRecvControl r => tryRecvControl r
  | .destroy r finalized => destroy r finalized
  | .probe r source tests => probe r source tests
  | .drop r found => drop r found
  | .arrive route => arrive route
  | .copy route i => copy route i

def start (initialized : Bool) : Transports n where
  rank _ := ⟨if initialized then .idle else .inert, [], 0, []⟩
  net := .empty
  sent _ := []
  taken _ := []
  dropped _ := []

/-- The bytes of a published frame can be counted. -/
def Fits (_ : Transports n) : TransportEvent n → Prop
  | .publish _ _ f _ _ =>
    size workerFrameHeader + f.edgesOut.length * size edgeCounter ≤ MAX_COUNT
  | _ => True

instance (s : Transports n) (e : TransportEvent n) : Decidable (s.Fits e) := by
  unfold Fits
  split <;> infer_instance

end Transports

def transportMachine (n : ℕ) : Machine (Transports n) (TransportEvent n) TransportFault where
  initial s := ∃ initialized, s = Transports.start initialized
  step := Transports.step

end Gempba.Telemetry
