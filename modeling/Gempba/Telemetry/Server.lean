import Gempba.Library.Machine
import Gempba.Telemetry.BroadcastLine
import Gempba.Telemetry.ClientOutbox
import Gempba.Telemetry.Hub
import Gempba.Telemetry.RunNotes

/-!
# The server of the dashboards

One thread accepts clients, a second one takes their commands and broadcasts,
and `stop` ends both and closes what is open. The hub is shared with the threads
that tick. A step is one access to what threads share, or one client under the
lock of the clients. Descriptors are numbers, and using one that is not open
raises. Milliseconds of the steady clock are natural numbers.
-/

namespace Gempba.Telemetry

set_option autoImplicit false

def MIN_BROADCAST_INTERVAL : ℕ := 50

def CONTROL_POLL_INTERVAL : ℕ := 500

def SNAPSHOT_POLL_INTERVAL : ℕ := 10

def OUTBOX_LINES : ℕ := 16

def FINAL_FLUSH_TIMEOUT : ℕ := 1000

def FINAL_FLUSH_POLL : ℕ := 10

def SNAPSHOT_WAIT_MS : ℕ := 1000

def Hub.broadcastInterval (h : Hub) : ℕ := max h.intervalMs.toNat MIN_BROADCAST_INTERVAL

/-- A client; the fields after the outbox are bookkeeping of the model. -/
structure ClientState where
  sock : ℕ
  inbox : Bytes
  outbox : ClientOutbox Bytes
  /-- What has been read from its socket. -/
  sent : Bytes
  /-- What of it was read by polls that did not drop the client. -/
  handled : Bytes
  dropped : Bool
  /-- The commands that have been applied for it. -/
  applied : List Command
  /-- The bytes its socket has taken. -/
  received : Bytes
  pushed : List Bytes
  /-- How many lines were distributed before it was admitted. -/
  joined : ℕ
  deriving DecidableEq

namespace ClientState

def connect (sock joined : ℕ) : ClientState :=
  ⟨sock, [], .create OUTBOX_LINES, [], [], false, [], [], [], joined⟩

def push (line : Bytes) (c : ClientState) : ClientState :=
  { c with outbox := c.outbox.push line, pushed := c.pushed ++ [line] }

/-- What a flush leaves, and whether the connection held. -/
def flushClient (sender : Sender) (c : ClientState) : ClientState × Bool :=
  let flushed := c.outbox.flush id sender
  ({ c with outbox := flushed.outbox, received := c.received ++ flushed.bytes }, flushed.connected)

def drained (poll : Poll) (inbox : Bytes) (c : ClientState) : ClientState :=
  { c with inbox, sent := c.sent ++ poll.received, handled := c.handled ++ poll.received }

/-- The client after a poll that drops it; the lines stay in the inbox. -/
def drop (poll : Poll) (c : ClientState) : ClientState :=
  let read := readBytes c.inbox poll.chunks
  { c with inbox := c.inbox ++ read, sent := c.sent ++ read, dropped := true }

end ClientState

/-- Why a line is broadcast: the interval was over, or a snapshot was complete. -/
inductive Cause where
  | due (intervalMs : ℕ)
  | snapshot (id : UInt32)
  deriving DecidableEq, Repr

structure Stamp where
  time : ℕ
  cause : Cause
  deriving DecidableEq, Repr

inductive AcceptPoint where
  | loop
  | accepting
  | accepted (sock : ℕ)
  | left
  deriving DecidableEq, Repr

/-- Where the broadcast thread is; it holds the lock of the clients while it drains, applies or
distributes. -/
inductive BroadcastPoint where
  | loop
  | waiting (deadline : ℕ)
  | draining (i : ℕ) (dead : List ℕ)
  | applying (i : ℕ) (dead : List ℕ) (commands : List Command) (message : Option ControlMsg)
  | testing (dead : List ℕ)
  | stamping (dead : List ℕ) (cause : Cause)
  | building (dead : List ℕ) (withFrames : Bool)
  | ready (dead : List ℕ) (line : Option Bytes)
  | distributing (i : ℕ) (dead : List ℕ) (line : Option Bytes) (backlog : Bool)
  | closing (dead : List ℕ)
  | left
  deriving DecidableEq

def BroadcastPoint.locks : BroadcastPoint → Bool
  | .draining _ _ | .applying _ _ _ _ | .distributing _ _ _ _ => true
  | _ => false

/-- Where `stop` is; `waiting` are the sockets whose last lines are not out. -/
inductive StopPoint where
  | up
  | lowered
  | joining
  | flushing (waiting : List ℕ) (deadline : ℕ)
  | checking (waiting : List ℕ) (deadline : ℕ)
  | sleeping (waiting : List ℕ) (deadline wakeAt : ℕ)
  | closing (socks : List ℕ)
  | returned
  deriving DecidableEq, Repr

structure Server where
  now : ℕ
  hub : Hub
  notes : RunNotes
  /-- The snapshot of each rank's latest frame. -/
  latestSnapshots : List (Option UInt32)
  running : Bool
  listening : Bool
  accept : AcceptPoint
  broadcast : BroadcastPoint
  stop : StopPoint
  clients : List ClientState
  lastBroadcast : ℕ
  broadcastSnapshot : UInt32
  backlog : Bool
  sockets : List ℕ
  /-- The clients whose sockets have been given up. -/
  gone : List ClientState
  distributed : List Bytes
  startMs : ℕ
  /-- The broadcasts so far, the newest first. -/
  stamps : List Stamp
  /-- When the snapshot requests were accepted, the newest first. -/
  requests : List ℕ
  /-- The clients that `stop` found. -/
  found : List ClientState

def HubReadings.blank : HubReadings where
  runWords := (0, 0)
  nowMs := 0
  elapsedSeconds := 0
  paused := false
  topology := ⟨[], []⟩
  latestRankFrame _ := none
  latestNodeFrame _ := none
  run := ⟨.MP_MPI, [], [], 1, [], 0, [], [], []⟩

inductive HubChange where
  | setIntervalMs (intervalMs : UInt32)
  | readControl (m : ControlMsg)
  | emitIfDue
  | swapFanout
  deriving DecidableEq

def HubChange.apply (now : ℕ) (h : Hub) : HubChange → Hub
  | .setIntervalMs intervalMs => h.setIntervalMs intervalMs
  | .readControl m => h.readControl m
  | .emitIfDue => h.emitIfDue now
  | .swapFanout => { h with pendingFanout := [] }

inductive ServerError where
  | badDescriptor
  deriving DecidableEq, Repr

namespace Server

abbrev Step := Transition.Outcome ServerError Server

/-- A snapshot is outstanding while a rank has not answered it, for at most a second. -/
def snapshotOutstanding (s : Server) : Bool :=
  s.hub.snapshotRequested ≠ 0 && s.now - s.hub.snapshotRequestedMs < SNAPSHOT_WAIT_MS &&
    s.latestSnapshots.any fun id => id.all (· < s.hub.snapshotRequested)

def closeSocket (sock : ℕ) (s : Server) : Step :=
  if sock ∈ s.sockets then .moved { s with sockets := s.sockets.erase sock }
  else .raised .badDescriptor

def setClient (i : ℕ) (c : ClientState) (s : Server) : Server :=
  { s with clients := s.clients.set i c }

/-! ## The environment -/

def tick (s : Server) : Step := .moved { s with now := s.now + 1 }

def changeHub (change : HubChange) (s : Server) : Step :=
  .moved { s with hub := change.apply s.now s.hub }

def receiveFrame (rank : ℕ) (snapshotId : UInt32) (s : Server) : Step :=
  .moved { s with latestSnapshots := s.latestSnapshots.set rank (some snapshotId) }

/-! ## The thread that accepts -/

def acceptLoop (s : Server) : Step :=
  if s.accept = .loop then
    .moved { s with accept := if s.running then .accepting else .left }
  else .blocked

def acceptClient (sock : ℕ) (s : Server) : Step :=
  if s.accept = .accepting ∧ s.listening = true ∧ sock ∉ s.sockets then
    .moved { s with accept := .accepted sock, sockets := sock :: s.sockets }
  else .blocked

def acceptFailed (s : Server) : Step :=
  if s.accept = .accepting then .moved { s with accept := .left } else .blocked

/-- A socket that cannot be made non-blocking is closed at once. -/
def admitClient (nonBlocking : Bool) (s : Server) : Step :=
  match s.accept with
  | .accepted sock =>
    if nonBlocking = false then closeSocket sock { s with accept := .loop }
    else if s.broadcast.locks then .blocked
    else
      .moved { s with
        accept := .loop
        clients := s.clients ++ [.connect sock s.distributed.length] }
  | _ => .blocked

/-! ## The thread that broadcasts -/

def pollInterval (s : Server) : ℕ :=
  let poll :=
    if s.hub.snapshotRequested ≠ s.broadcastSnapshot then SNAPSHOT_POLL_INTERVAL
    else CONTROL_POLL_INTERVAL
  if s.backlog then min poll MIN_BROADCAST_INTERVAL else poll

def broadcastLoop (s : Server) : Step :=
  if s.broadcast = .loop then
    if s.running then
      .moved { s with
        broadcast := .waiting (min (s.lastBroadcast + s.hub.broadcastInterval)
          (s.now + s.pollInterval)) }
    else .moved { s with broadcast := .left }
  else .blocked

/-- The end of the wait: its deadline, or `stop`. -/
def wake (s : Server) : Step :=
  match s.broadcast with
  | .waiting deadline =>
    if s.running = false then .moved { s with broadcast := .left }
    else if deadline ≤ s.now then .moved { s with broadcast := .draining 0 [] }
    else .blocked
  | _ => .blocked

/-- The next client is polled, or all have been. -/
def drain (poll : Poll) (s : Server) : Step :=
  match s.broadcast with
  | .draining i dead =>
    match s.clients[i]? with
    | none => .moved { s with broadcast := .testing dead }
    | some c =>
      if c.sock ∈ s.sockets then
        match drainInbound c.inbox poll with
        | none =>
          .moved { s.setClient i (c.drop poll) with
            broadcast := .draining (i + 1) (dead ++ [c.sock]) }
        | some (commands, inbox) =>
          .moved { s.setClient i (c.drained poll inbox) with
            broadcast := .applying i dead commands none }
      else .raised .badDescriptor
  | _ => .blocked

/-- The hub with a command, and the message that is queued next. -/
def takeCommand (command : Command) (s : Server) : Server × Option ControlMsg :=
  match command with
  | .mark label =>
    ({ s with notes := (s.notes.markRun label .DASHBOARD (UInt64.ofNat s.now)).2 }, none)
  | .control kind value =>
    let applied := s.hub.applyControlFromClient kind value s.now
    let isNew := applied.1.snapshotRequested ≠ s.hub.snapshotRequested
    ({ s with hub := applied.1, requests := if isNew then s.now :: s.requests else s.requests },
      applied.2)

def applyCommand (s : Server) : Step :=
  match s.broadcast with
  | .applying i dead (command :: commands) none =>
    match s.clients[i]? with
    | none => .blocked
    | some c =>
      let taken := s.takeCommand command
      .moved { taken.1.setClient i { c with applied := c.applied ++ [command] } with
        broadcast := .applying i dead commands taken.2 }
  | _ => .blocked

def queueCommand (s : Server) : Step :=
  match s.broadcast with
  | .applying i dead commands (some message) =>
    .moved { s with
      hub := { s.hub with pendingFanout := s.hub.pendingFanout ++ [message] }
      broadcast := .applying i dead commands none }
  | _ => .blocked

def nextClient (s : Server) : Step :=
  match s.broadcast with
  | .applying i dead [] none => .moved { s with broadcast := .draining (i + 1) dead }
  | _ => .blocked

/-- Whether there is something to broadcast. -/
def testDue (s : Server) : Step :=
  match s.broadcast with
  | .testing dead =>
    if s.hub.snapshotRequested ≠ s.broadcastSnapshot ∧ s.snapshotOutstanding = false then
      .moved { s with broadcast := .stamping dead (.snapshot s.hub.snapshotRequested) }
    else if s.lastBroadcast + s.hub.broadcastInterval ≤ s.now then
      .moved { s with broadcast := .stamping dead (.due s.hub.broadcastInterval) }
    else .moved { s with broadcast := .ready dead none }
  | _ => .blocked

def stamp (s : Server) : Step :=
  match s.broadcast with
  | .stamping dead (.snapshot id) =>
    .moved { s with
      lastBroadcast := s.now
      broadcastSnapshot := id
      broadcast := .building dead true
      stamps := ⟨s.now, .snapshot id⟩ :: s.stamps }
  | .stamping dead (.due intervalMs) =>
    .moved { s with
      lastBroadcast := s.now
      broadcast := .building dead (!s.hub.paused)
      stamps := ⟨s.now, .due intervalMs⟩ :: s.stamps }
  | _ => .blocked

def build (readings : HubReadings) (s : Server) : Step :=
  match s.broadcast with
  | .building dead withFrames =>
    .moved { s with
      broadcast := .ready dead
        (some (buildBroadcastLine withFrames false { readings with paused := s.hub.paused })) }
  | _ => .blocked

def startDistributing (s : Server) : Step :=
  match s.broadcast with
  | .ready dead line =>
    .moved { s with
      broadcast := .distributing 0 dead line false
      distributed := s.distributed ++ line.toList }
  | _ => .blocked

/-- The next client gets the line and what waits for it, or all have. -/
def distribute (sender : Sender) (s : Server) : Step :=
  match s.broadcast with
  | .distributing i dead line backlog =>
    match s.clients[i]? with
    | none =>
      .moved { s with
        broadcast := .closing dead
        backlog
        clients := s.clients.filter (·.sock ∉ dead)
        gone := s.gone ++ s.clients.filter (·.sock ∈ dead) }
    | some c =>
      if c.sock ∈ dead then .moved { s with broadcast := .distributing (i + 1) dead line backlog }
      else if c.sock ∈ s.sockets then
        let flushed := (line.elim c c.push).flushClient sender
        if flushed.2 = false then
          .moved { s.setClient i flushed.1 with
            broadcast := .distributing (i + 1) (dead ++ [c.sock]) line backlog }
        else
          .moved { s.setClient i flushed.1 with
            broadcast := .distributing (i + 1) dead line
              (backlog || !flushed.1.outbox.lines.isEmpty) }
      else .raised .badDescriptor
  | _ => .blocked

def closeDead (s : Server) : Step :=
  match s.broadcast with
  | .closing (sock :: dead) => closeSocket sock { s with broadcast := .closing dead }
  | .closing [] => .moved { s with broadcast := .loop }
  | _ => .blocked

/-! ## Stopping -/

def stopRunning (s : Server) : Step :=
  if s.stop = .up then .moved { s with stop := .lowered, running := false } else .blocked

def shutListener (s : Server) : Step :=
  if s.stop = .lowered then .moved { s with stop := .joining, listening := false } else .blocked

/-- Both threads have ended; every client still there gets a last line. -/
def finish (readings : HubReadings) (s : Server) : Step :=
  if s.stop = .joining ∧ s.accept = .left ∧ s.broadcast = .left then
    if s.clients = [] then .moved { s with stop := .closing [] }
    else
      let line := buildBroadcastLine true true { readings with paused := s.hub.paused }
      .moved { s with
        stop := .flushing (s.clients.map ClientState.sock) (s.now + FINAL_FLUSH_TIMEOUT)
        clients := s.clients.map (ClientState.push line)
        found := s.clients
        distributed := s.distributed ++ [line] }
  else .blocked

/-- The clients after a pass over those that wait, and the sockets that wait on. -/
def flushWaiting (senders : ℕ → Sender) (waiting : List ℕ) :
    List ClientState → List ClientState × List ℕ
  | [] => ([], [])
  | c :: clients =>
    let rest := flushWaiting senders waiting clients
    if c.sock ∈ waiting then
      let flushed := c.flushClient (senders c.sock)
      (flushed.1 :: rest.1,
        if flushed.2 = false ∨ flushed.1.outbox.lines = [] then rest.2 else c.sock :: rest.2)
    else (c :: rest.1, rest.2)

def flushFinal (senders : ℕ → Sender) (s : Server) : Step :=
  match s.stop with
  | .flushing waiting deadline =>
    if ∀ sock ∈ waiting, sock ∈ s.sockets then
      let flushed := flushWaiting senders waiting s.clients
      .moved { s with clients := flushed.1, stop := .checking flushed.2 deadline }
    else .raised .badDescriptor
  | _ => .blocked

def checkFinal (s : Server) : Step :=
  match s.stop with
  | .checking waiting deadline =>
    if waiting = [] ∨ deadline ≤ s.now then
      .moved { s with stop := .closing (s.clients.map ClientState.sock) }
    else .moved { s with stop := .sleeping waiting deadline (s.now + FINAL_FLUSH_POLL) }
  | _ => .blocked

def wakeFinal (s : Server) : Step :=
  match s.stop with
  | .sleeping waiting deadline wakeAt =>
    if wakeAt ≤ s.now then .moved { s with stop := .flushing waiting deadline } else .blocked
  | _ => .blocked

def closeFinal (s : Server) : Step :=
  match s.stop with
  | .closing (sock :: socks) => closeSocket sock { s with stop := .closing socks }
  | .closing [] =>
    .moved { s with stop := .returned, clients := [], gone := s.gone ++ s.clients }
  | _ => .blocked

end Server

inductive ServerEvent where
  | tick
  | changeHub (change : HubChange)
  | receiveFrame (rank : ℕ) (snapshotId : UInt32)
  | acceptLoop
  | acceptClient (sock : ℕ)
  | acceptFailed
  | admitClient (nonBlocking : Bool)
  | broadcastLoop
  | wake
  | drain (poll : Poll)
  | applyCommand
  | queueCommand
  | nextClient
  | testDue
  | stamp
  | build (readings : HubReadings)
  | startDistributing
  | distribute (sender : Sender)
  | closeDead
  | stopRunning
  | shutListener
  | finish (readings : HubReadings)
  | flushFinal (senders : ℕ → Sender)
  | checkFinal
  | wakeFinal
  | closeFinal

namespace Server

def step : ServerEvent → Server → Step
  | .tick => tick
  | .changeHub change => changeHub change
  | .receiveFrame rank snapshotId => receiveFrame rank snapshotId
  | .acceptLoop => acceptLoop
  | .acceptClient sock => acceptClient sock
  | .acceptFailed => acceptFailed
  | .admitClient nonBlocking => admitClient nonBlocking
  | .broadcastLoop => broadcastLoop
  | .wake => wake
  | .drain poll => drain poll
  | .applyCommand => applyCommand
  | .queueCommand => queueCommand
  | .nextClient => nextClient
  | .testDue => testDue
  | .stamp => stamp
  | .build readings => build readings
  | .startDistributing => startDistributing
  | .distribute sender => distribute sender
  | .closeDead => closeDead
  | .stopRunning => stopRunning
  | .shutListener => shutListener
  | .finish readings => finish readings
  | .flushFinal senders => flushFinal senders
  | .checkFinal => checkFinal
  | .wakeFinal => wakeFinal
  | .closeFinal => closeFinal

/-- After `start` has bound its socket, at a time of the steady clock. -/
def started (now worldSize : ℕ) (isSentinel : Bool) (notes : RunNotes) : Server where
  now := now
  hub := .initial isSentinel
  notes := notes
  latestSnapshots := List.replicate worldSize none
  running := true
  listening := true
  accept := .loop
  broadcast := .loop
  stop := .up
  clients := []
  lastBroadcast := now
  broadcastSnapshot := 0
  backlog := false
  sockets := []
  gone := []
  distributed := []
  startMs := now
  stamps := []
  requests := []
  found := []

end Server

def serverMachine : Transition.Machine Server ServerEvent ServerError where
  initial s := ∃ now worldSize isSentinel notes, s = Server.started now worldSize isSentinel notes
  step := Server.step

end Gempba.Telemetry
