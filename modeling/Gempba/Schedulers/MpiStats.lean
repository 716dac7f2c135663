import Gempba.Telemetry.WorkerFrameCodec

/-!
# The statistics of a rank

Statistics travel as they lie in memory. A visitor is shown every member under
its label and stores those it knows; a value of another type than the one it
asks for is an error.
-/

namespace Gempba

set_option autoImplicit false

open MemoryImage Telemetry

structure DefaultMpiStats where
  rank : Int32
  receivedTaskCount : UInt64
  sentTaskCount : UInt64
  totalRequestedTasks : UInt64
  totalThreadRequests : UInt64
  idleTime : BitVec 64
  elapsedTime : BitVec 64
  coordinatorMessagesHandled : UInt64
  deriving DecidableEq, Repr

namespace DefaultMpiStats

def initial (rank : Int32) : DefaultMpiStats := ⟨rank, 0, 0, 0, 0, 0, 0, 0⟩

def doubleMember {α : Type} (get : α → BitVec 64) (set : BitVec 64 → α → α) : Part UInt8 α :=
  .member ⟨8, fun a => putNumber 8 (get a).toNat,
    fun data => set (BitVec.ofNat 64 (littleEndian data)),
    fun a => length_putNumber 8 (get a).toNat⟩

theorem assign_doubleMember {α : Type} (get : α → BitVec 64) (set : BitVec 64 → α → α) (a b : α) :
    (doubleMember get set).assign a b = set (get a) b := by
  have h : BitVec.ofNat 64 (littleEndian (putNumber 8 (get a).toNat)) = get a := by
    rw [littleEndian_putNumber (get a).isLt, BitVec.ofNat_toNat, BitVec.setWidth_eq]
  exact congrArg (set · b) h

def internalData : List (Part UInt8 DefaultMpiStats) := [
  u32Member (·.rank.toUInt32) fun v x => { x with rank := v.toInt32 },
  .gap 4,
  u64Member (·.receivedTaskCount) fun v x => { x with receivedTaskCount := v },
  u64Member (·.sentTaskCount) fun v x => { x with sentTaskCount := v },
  u64Member (·.totalRequestedTasks) fun v x => { x with totalRequestedTasks := v },
  u64Member (·.totalThreadRequests) fun v x => { x with totalThreadRequests := v },
  doubleMember (·.idleTime) fun v x => { x with idleTime := v },
  doubleMember (·.elapsedTime) fun v x => { x with elapsedTime := v },
  u64Member (·.coordinatorMessagesHandled) fun v x => { x with coordinatorMessagesHandled := v }]

example : size internalData = 64 := by decide

theorem assign_internalData (x y : DefaultMpiStats) : assign x internalData y = x := by
  simp only [internalData, assign, assign_u32Member, assign_u64Member, assign_doubleMember,
    assign_gap, Int32.toInt32_toUInt32]

/-- `fill` are the bytes between the members. -/
def serialize (fill : ℕ → UInt8) (x : DefaultMpiStats) : Bytes := image fill 0 internalData x

/-- A packet of another size is refused. -/
def fromPacket (packet : Bytes) : Option DefaultMpiStats :=
  if packet.length ≠ size internalData then none
  else some (restore internalData packet (.initial 0))

theorem fromPacket_serialize (fill : ℕ → UInt8) (x : DefaultMpiStats) :
    fromPacket (x.serialize fill) = some x := by
  have hrestore := restore_image fill 0 internalData x (.initial 0) []
  rw [List.append_nil, assign_internalData] at hrestore
  rw [fromPacket, serialize, length_image, if_neg (fun h => h rfl), hrestore]

/-- What a visitor is shown. -/
inductive Value where
  | int (v : Int32)
  | size (v : UInt64)
  | double (v : BitVec 64)
  deriving DecidableEq, Repr

def labels : List String :=
  ["rank", "received_task_count", "sent_task_count", "total_requested_tasks",
    "total_thread_requests", "idle_time", "elapsed_time", "coordinator_messages_handled"]

def visit (x : DefaultMpiStats) : List (String × Value) :=
  [("rank", .int x.rank), ("received_task_count", .size x.receivedTaskCount),
    ("sent_task_count", .size x.sentTaskCount),
    ("total_requested_tasks", .size x.totalRequestedTasks),
    ("total_thread_requests", .size x.totalThreadRequests), ("idle_time", .double x.idleTime),
    ("elapsed_time", .double x.elapsedTime),
    ("coordinator_messages_handled", .size x.coordinatorMessagesHandled)]

end DefaultMpiStats

structure DefaultMpiStatsVisitor where
  receivedTaskCount : UInt64
  sentTaskCount : UInt64
  totalRequestedTasks : UInt64
  totalThreadRequests : UInt64
  idleTime : BitVec 64
  elapsedTime : BitVec 64
  coordinatorMessagesHandled : UInt64
  deriving DecidableEq, Repr

namespace DefaultMpiStatsVisitor

open DefaultMpiStats (Value)

def initial : DefaultMpiStatsVisitor := ⟨0, 0, 0, 0, 0, 0, 0⟩

/-- `std::any_cast` to `std::size_t`; none is an exception. -/
def castSize : Value → Option UInt64
  | .size v => some v
  | .int _ | .double _ => none

def castDouble : Value → Option (BitVec 64)
  | .double v => some v
  | .int _ | .size _ => none

/-- What the visitor does with a member. -/
def store (key : String) (value : Value) (v : DefaultMpiStatsVisitor) :
    Option DefaultMpiStatsVisitor :=
  if key = "received_task_count" then
    (castSize value).map fun x => { v with receivedTaskCount := x }
  else if key = "sent_task_count" then
    (castSize value).map fun x => { v with sentTaskCount := x }
  else if key = "total_requested_tasks" then
    (castSize value).map fun x => { v with totalRequestedTasks := x }
  else if key = "total_thread_requests" then
    (castSize value).map fun x => { v with totalThreadRequests := x }
  else if key = "idle_time" then (castDouble value).map fun x => { v with idleTime := x }
  else if key = "elapsed_time" then (castDouble value).map fun x => { v with elapsedTime := x }
  else if key = "coordinator_messages_handled" then
    (castSize value).map fun x => { v with coordinatorMessagesHandled := x }
  else some v

def visit (x : DefaultMpiStats) (v : DefaultMpiStatsVisitor) : Option DefaultMpiStatsVisitor :=
  x.visit.foldlM (fun v member => v.store member.1 member.2) v

/-- The visitor knows every label but that of the rank, and its types are those of the members. -/
theorem visit_eq (x : DefaultMpiStats) (v : DefaultMpiStatsVisitor) :
    v.visit x = some ⟨x.receivedTaskCount, x.sentTaskCount, x.totalRequestedTasks,
      x.totalThreadRequests, x.idleTime, x.elapsedTime, x.coordinatorMessagesHandled⟩ := rfl

end DefaultMpiStatsVisitor

theorem DefaultMpiStats.visit_labels (x : DefaultMpiStats) :
    x.visit.map Prod.fst = labels := rfl

end Gempba
