import Gempba.Library.Json
import Gempba.Telemetry.Frames
import Mathlib.Data.List.Range
import Mathlib.Data.List.TakeWhile

/-!
# What a rank finds out about its host

The answers of the operating system and of the hardware locality library are
given; without that library, or when it finds no socket, all cores are put into
one socket.
-/

namespace Gempba.Telemetry

set_option autoImplicit false

open Json (bytes)

def MAX_LOGICAL_CPUS : ℕ := 1024

/-- A package of the loaded hardware topology. -/
structure HwlocPackage where
  hasCpuset : Bool
  cpuModel : Option Bytes
  subtype : Option Bytes
  cores : ℤ
  pus : ℤ
  osIndices : List UInt32

structure HwlocTopology where
  packageCount : ℤ
  package : ℕ → Option HwlocPackage
  cores : ℤ
  pus : ℤ
  /-- The logical index of the package of a processing unit, if both are found. -/
  packageOf : ℕ → Option ℕ

structure Host where
  hostname : Option (Vector UInt8 64)
  pid : UInt32
  /-- The CPUs of `sched_getaffinity`, if it succeeds. -/
  affinity : Option (ℕ → Bool)
  memTotalBytes : UInt64
  hardwareConcurrency : UInt32
  cpuBrand : Bytes
  hwloc : Option HwlocTopology

def hostnameBuffer (answer : Option (Vector UInt8 64)) : Bytes :=
  match answer with
  | some buffer => buffer.toList
  | none => bytes "unknown" ++ List.replicate 57 0

theorem length_hostnameBuffer (answer : Option (Vector UInt8 64)) :
    ((hostnameBuffer answer).set 63 0).length = 64 := by
  rw [List.length_set]
  cases answer with
  | some buffer => exact buffer.size_toArray
  | none => rfl

theorem terminated_hostnameBuffer (answer : Option (Vector UInt8 64)) :
    0 ∈ (hostnameBuffer answer).set 63 0 := by
  apply List.mem_set
  have hlength := length_hostnameBuffer answer
  rw [List.length_set] at hlength
  omega

def fillHostname (answer : Option (Vector UInt8 64)) : CharArray 64 where
  chars := (hostnameBuffer answer).set 63 0
  length_chars := length_hostnameBuffer answer
  terminated := terminated_hostnameBuffer answer

def emptyMask : Vector UInt64 CPU_MASK_WORDS := Vector.replicate CPU_MASK_WORDS 0

def maskWord (mask : Vector UInt64 CPU_MASK_WORDS) (w : ℕ) : UInt64 := mask[w]?.getD 0

def cpuBit (b : ℕ) : UInt64 := 1 <<< UInt64.ofNat b

def queryAllowedCpuMask (affinity : Option (ℕ → Bool)) : Vector UInt64 CPU_MASK_WORDS :=
  match affinity with
  | none => emptyMask
  | some allowed =>
    (List.range MAX_LOGICAL_CPUS).foldl (fun mask i =>
      if allowed i then
        mask.setIfInBounds (i / 64) (maskWord mask (i / 64) ||| cpuBit (i % 64))
      else mask) emptyMask

def firstAllowedCpu (mask : Vector UInt64 CPU_MASK_WORDS) : Option ℕ :=
  (List.range CPU_MASK_WORDS).findSome? fun w =>
    ((List.range 64).find? fun b => maskWord mask w &&& cpuBit b ≠ 0).map fun b => w * 64 + b

def socketOfCpu (hwloc : Option HwlocTopology) (cpu : ℕ) : Option ℕ :=
  hwloc.bind fun topology => topology.packageOf cpu

def buildSelfIdentity (host : Host) (rank : UInt32) : WorkerIdentity :=
  let mask := queryAllowedCpuMask host.affinity
  let socket := (firstAllowedCpu mask).bind (socketOfCpu host.hwloc)
  { version := TELEMETRY_SCHEMA_VERSION
    workerId := rank
    hostname := fillHostname host.hostname
    pid := host.pid
    primarySocket := UInt8.ofNat (socket.getD 0)
    allowedCpuMask := mask }

def TopologyNode.blank : TopologyNode where
  hostname := []
  workerIds := []
  sentinelWorkerId := 0
  sockets := []
  totalPhysicalCores := 0
  totalLogicalCores := 0
  memTotalBytes := 0

/-- A count that the library gives, nothing when it is not positive. -/
def positiveCount (count : ℤ) : UInt16 := if 0 < count then UInt16.ofInt count else 0

def readPackage (id : ℕ) (package : HwlocPackage) : TopologySocket where
  socketId := UInt8.ofNat id
  name := (package.cpuModel.or package.subtype).getD []
  physicalCores := positiveCount package.cores
  logicalCores := positiveCount package.pus
  cpuIds := package.osIndices

/-- The node and what the function returns. -/
def fillStaticTopology (topology : HwlocTopology) (node : TopologyNode) : TopologyNode × Bool :=
  if topology.packageCount ≤ 0 then (node, false)
  else
    let sockets := (List.range topology.packageCount.toNat).filterMap fun i =>
      ((topology.package i).filter HwlocPackage.hasCpuset).map (readPackage i)
    let node := { node with
      totalLogicalCores :=
        if 0 < topology.pus then UInt16.ofInt topology.pus else node.totalLogicalCores
      totalPhysicalCores :=
        if 0 < topology.cores then UInt16.ofInt topology.cores else node.totalPhysicalCores
      sockets }
    (node, !sockets.isEmpty)

/-- The single socket with all cores. -/
def fallbackSocket (host : Host) (logicalCores : UInt16) : TopologySocket where
  socketId := 0
  name := host.cpuBrand
  physicalCores := 0
  logicalCores := logicalCores
  cpuIds := (List.range logicalCores.toNat).map UInt32.ofNat

def fillLocalHostFields (host : Host) (node : TopologyNode) : TopologyNode :=
  let node := { node with memTotalBytes := host.memTotalBytes }
  let (node, filled) := match host.hwloc with
    | none => (node, false)
    | some topology => fillStaticTopology topology node
  if filled then node
  else
    let logicalCores : UInt16 :=
      if host.hardwareConcurrency = 0 then 1 else host.hardwareConcurrency.toUInt16
    { node with
      totalLogicalCores := logicalCores
      totalPhysicalCores := 0
      sockets := node.sockets ++ [fallbackSocket host logicalCores] }

theorem fillStaticTopology_hostname (topology : HwlocTopology) (node : TopologyNode) :
    (fillStaticTopology topology node).1.hostname = node.hostname := by
  rw [fillStaticTopology]
  split <;> rfl

theorem fillLocalHostFields_hostname (host : Host) (node : TopologyNode) :
    (fillLocalHostFields host node).hostname = node.hostname := by
  rw [fillLocalHostFields]
  cases host.hwloc with
  | none => rfl
  | some topology =>
    simp only
    split
    · exact fillStaticTopology_hostname topology _
    · exact fillStaticTopology_hostname topology _

/-- Without the library there is one socket. -/
theorem fillLocalHostFields_sockets (host : Host) (node : TopologyNode) (h : host.hwloc = none) :
    ∃ logicalCores, (fillLocalHostFields host node).sockets =
      node.sockets ++ [fallbackSocket host logicalCores] := by
  rw [fillLocalHostFields, h]
  exact ⟨_, rfl⟩

/-- A hostname is shorter than its array. -/
theorem CharArray.length_text_lt {size : ℕ} (a : CharArray size) : a.text.length < size := by
  have htext : a.text <+: a.chars := List.takeWhile_prefix _
  have hle := htext.length_le
  rw [a.length_chars] at hle
  apply Nat.lt_of_le_of_ne hle
  intro hlength
  have hall : a.text = a.chars := htext.eq_of_length (hlength.trans a.length_chars.symm)
  have hzero := List.takeWhile_eq_self_iff.mp hall 0 a.terminated
  exact of_decide_eq_true hzero rfl

end Gempba.Telemetry
