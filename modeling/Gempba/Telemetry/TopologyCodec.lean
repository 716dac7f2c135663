import Gempba.Library.LatchedReader
import Gempba.Telemetry.Frames
import Mathlib.Algebra.Group.Nat.Defs
import Mathlib.Data.List.Range

/-!
# The topology of a host as bytes

Numbers are written little-endian, strings and lists after their length. The
decoder reads the same fields in the same order, and its loops test the error
flag of the reader in each round.
-/

namespace Gempba.Telemetry

set_option autoImplicit false

open Latched Latched.Reader

/-- The bytes of a number, lowest first. -/
def putNumber (width v : ℕ) : Bytes :=
  (List.range width).map fun i => UInt8.ofNat (v >>> (8 * i) &&& 0xFF)

def putU8 (v : UInt8) : Bytes := [v]

def putU16 (v : UInt16) : Bytes := putNumber 2 v.toNat

def putU32 (v : UInt32) : Bytes := putNumber 4 v.toNat

def putU64 (v : UInt64) : Bytes := putNumber 8 v.toNat

def putStr (str : Bytes) : Bytes :=
  let len := min str.length 0xFFFF
  putU16 (UInt16.ofNat len) ++ str.take len

/-- The number whose bytes these are, lowest first. -/
def littleEndian (bytes : Bytes) : ℕ :=
  (List.range bytes.length).foldl (fun v i => v ||| (bytes.getD i 0).toNat <<< (8 * i)) 0

def u8 : Reader UInt8 UInt8 := block 1 (fun bytes => bytes.getD 0 0) 0

def u16 : Reader UInt8 UInt16 := block 2 (fun bytes => UInt16.ofNat (littleEndian bytes)) 0

def u32 : Reader UInt8 UInt32 := block 4 (fun bytes => UInt32.ofNat (littleEndian bytes)) 0

def u64 : Reader UInt8 UInt64 := block 8 (fun bytes => UInt64.ofNat (littleEndian bytes)) 0

def str : Reader UInt8 Bytes := do
  let len ← u16
  block len.toNat id []

def serializeSocket (socket : TopologySocket) : Bytes :=
  putU8 socket.socketId ++ putU16 socket.physicalCores ++ putU16 socket.logicalCores ++
    putStr socket.name ++ putU32 (UInt32.ofNat socket.cpuIds.length) ++
    socket.cpuIds.flatMap putU32

def serializeNodeTopology (node : TopologyNode) : Bytes :=
  putStr node.hostname ++ putU16 node.totalPhysicalCores ++ putU16 node.totalLogicalCores ++
    putU64 node.memTotalBytes ++ putU16 (UInt16.ofNat node.sockets.length) ++
    node.sockets.flatMap serializeSocket

def readSocket : Reader UInt8 TopologySocket := do
  let socketId ← u8
  let physicalCores ← u16
  let logicalCores ← u16
  let name ← str
  let cpuCount ← u32
  let cpuIds ← whileOk u32 cpuCount.toNat
  return { socketId, name, physicalCores, logicalCores, cpuIds }

def readNode (node : TopologyNode) : Reader UInt8 TopologyNode := do
  let hostname ← str
  let totalPhysicalCores ← u16
  let totalLogicalCores ← u16
  let memTotalBytes ← u64
  let socketCount ← u16
  let sockets ← whileOk readSocket socketCount.toNat
  return { node with hostname, totalPhysicalCores, totalLogicalCores, memTotalBytes, sockets }

/-- The node with the fields overwritten that were read, and the reader at the end: its flag is
what the function returns. -/
def deserializeNodeTopology (node : TopologyNode) (data : Bytes) : Option (TopologyNode × Cursor) :=
  readNode node data .start

theorem foldl_littleEndian (width v k : ℕ) (hk : k ≤ width) :
    (List.range k).foldl (fun n i => n ||| ((putNumber width v).getD i 0).toNat <<< (8 * i)) 0 =
      v % 2 ^ (8 * k) := by
  induction k with
  | zero => exact (Nat.mod_one v).symm
  | succ k ih =>
    have hbyte : ((putNumber width v).getD k 0).toNat = v / 2 ^ (8 * k) % 2 ^ 8 := by
      rw [putNumber, List.getD_eq_getElem?_getD, List.getElem?_map,
        List.getElem?_range (by omega), Option.map_some, Option.getD_some, UInt8.toNat_ofNat',
        Nat.shiftRight_eq_div_pow, show (0xFF : ℕ) = 2 ^ 8 - 1 from rfl,
        Nat.and_two_pow_sub_one_eq_mod,
        Nat.mod_mod]
    rw [List.range_succ, List.foldl_append, List.foldl_cons, List.foldl_nil, ih (by omega), hbyte,
      Nat.or_comm, Nat.shiftLeft_eq, Nat.mul_comm, ← Nat.two_pow_add_eq_or_of_lt
        (Nat.mod_lt _ (Nat.two_pow_pos _)), Nat.mul_add, Nat.pow_add, Nat.mod_mul, Nat.add_comm]

theorem length_putNumber (width v : ℕ) : (putNumber width v).length = width := by
  rw [putNumber, List.length_map, List.length_range]

theorem littleEndian_putNumber {width v : ℕ} (hv : v < 2 ^ (8 * width)) :
    littleEndian (putNumber width v) = v := by
  rw [littleEndian, length_putNumber, foldl_littleEndian width v width le_rfl, Nat.mod_eq_of_lt hv]

theorem reads_u8 (v : UInt8) : Reader.Reads u8 (putU8 v) v := Reader.reads_block rfl

theorem reads_u16 (v : UInt16) : Reader.Reads u16 (putU16 v) v := by
  have h : Reader.Reads u16 (putU16 v) (UInt16.ofNat (littleEndian (putU16 v))) :=
    Reader.reads_block (length_putNumber 2 v.toNat)
  rw [putU16, littleEndian_putNumber v.toNat_lt, UInt16.ofNat_toNat] at h
  exact h

theorem reads_u32 (v : UInt32) : Reader.Reads u32 (putU32 v) v := by
  have h : Reader.Reads u32 (putU32 v) (UInt32.ofNat (littleEndian (putU32 v))) :=
    Reader.reads_block (length_putNumber 4 v.toNat)
  rw [putU32, littleEndian_putNumber v.toNat_lt, UInt32.ofNat_toNat] at h
  exact h

theorem reads_u64 (v : UInt64) : Reader.Reads u64 (putU64 v) v := by
  have h : Reader.Reads u64 (putU64 v) (UInt64.ofNat (littleEndian (putU64 v))) :=
    Reader.reads_block (length_putNumber 8 v.toNat)
  rw [putU64, littleEndian_putNumber v.toNat_lt, UInt64.ofNat_toNat] at h
  exact h

/-- A string is written up to its first 65535 bytes. -/
theorem reads_str_cut (s : Bytes) : Reader.Reads str (putStr s) (s.take 0xFFFF) := by
  have htoNat : (UInt16.ofNat (min s.length 0xFFFF)).toNat = min s.length 0xFFFF :=
    UInt16.toNat_ofNat_of_lt' (by simp only [UInt16.size]; omega)
  have htake : s.take (min s.length 0xFFFF) = s.take 0xFFFF := by
    rw [List.take_eq_take_iff]
    omega
  have hlength : (s.take 0xFFFF).length = min s.length 0xFFFF := by
    rw [List.length_take, Nat.min_comm]
  simp only [putStr, htake]
  exact (reads_u16 _).bind (Reader.reads_block (hlength.trans htoNat.symm))

/-- The lists and strings that fit their length fields. -/
structure TopologySocket.Encodable (socket : TopologySocket) : Prop where
  name : socket.name.length ≤ 65535
  cpuIds : socket.cpuIds.length < 2 ^ 32

structure TopologyNode.Encodable (node : TopologyNode) : Prop where
  hostname : node.hostname.length ≤ 65535
  count : node.sockets.length ≤ 65535
  sockets : ∀ socket ∈ node.sockets, socket.Encodable

/-- The name as far as it is written. -/
def TopologySocket.cut (socket : TopologySocket) : TopologySocket :=
  { socket with name := socket.name.take 0xFFFF }

theorem reads_socket_cut {socket : TopologySocket} (hcpuIds : socket.cpuIds.length < 2 ^ 32) :
    Reader.Reads readSocket (serializeSocket socket) socket.cut := by
  have hcount : (UInt32.ofNat socket.cpuIds.length).toNat = socket.cpuIds.length :=
    UInt32.toNat_ofNat_of_lt' hcpuIds
  have hcpus : Reader.Reads (whileOk u32 (UInt32.ofNat socket.cpuIds.length).toNat)
      (socket.cpuIds.flatMap putU32) socket.cpuIds := by
    rw [hcount]
    exact Reader.Reads.whileOk fun v _ => reads_u32 v
  unfold readSocket serializeSocket
  simp only [List.append_assoc]
  apply (reads_u8 _).bind
  apply (reads_u16 _).bind
  apply (reads_u16 _).bind
  apply (reads_str_cut _).bind
  apply (reads_u32 _).bind
  exact hcpus.bind_pure _

theorem TopologySocket.Encodable.cut_eq {socket : TopologySocket} (h : socket.Encodable) :
    socket.cut = socket := by
  rw [TopologySocket.cut, List.take_of_length_le h.name]

/-- The fields that are encoded, the others as they were. -/
def TopologyNode.withTopology (node source : TopologyNode) : TopologyNode :=
  { node with
    hostname := source.hostname
    totalPhysicalCores := source.totalPhysicalCores
    totalLogicalCores := source.totalLogicalCores
    memTotalBytes := source.memTotalBytes
    sockets := source.sockets }

/-- A node as far as it is written: the sockets are those that the count tells of. -/
def TopologyNode.cut (node : TopologyNode) : TopologyNode :=
  { node with
    hostname := node.hostname.take 0xFFFF
    sockets := (node.sockets.take (node.sockets.length % 2 ^ 16)).map TopologySocket.cut }

theorem TopologyNode.Encodable.length_mod {node : TopologyNode} (h : node.Encodable) :
    node.sockets.length % 2 ^ 16 = node.sockets.length :=
  Nat.mod_eq_of_lt (Nat.lt_succ_of_le h.count)

theorem TopologyNode.Encodable.cut_eq {node : TopologyNode} (h : node.Encodable) :
    node.cut = node := by
  have hsockets : node.sockets.map TopologySocket.cut = node.sockets :=
    (List.map_congr_left fun socket hsocket => (h.sockets socket hsocket).cut_eq).trans
      (List.map_id' _)
  rw [TopologyNode.cut, h.length_mod, List.take_length, hsockets,
    List.take_of_length_le h.hostname]

/-- What is written before the sockets. -/
def headOf (node : TopologyNode) : Bytes :=
  putStr node.hostname ++ putU16 node.totalPhysicalCores ++ putU16 node.totalLogicalCores ++
    putU64 node.memTotalBytes ++ putU16 (UInt16.ofNat node.sockets.length)

theorem serializeNodeTopology_eq (node : TopologyNode) :
    serializeNodeTopology node = headOf node ++ node.sockets.flatMap serializeSocket := rfl

theorem reads_node_cut (node prior : TopologyNode)
    (hcpuIds : ∀ socket ∈ node.sockets, socket.cpuIds.length < 2 ^ 32) :
    Reader.Reads (readNode prior)
      (headOf node ++
        (node.sockets.take (node.sockets.length % 2 ^ 16)).flatMap serializeSocket)
      (prior.withTopology node.cut) := by
  have hle : node.sockets.length % 2 ^ 16 ≤ node.sockets.length := Nat.mod_le _ _
  have hcount : (UInt16.ofNat node.sockets.length).toNat =
      (node.sockets.take (node.sockets.length % 2 ^ 16)).length := by
    rw [UInt16.toNat_ofNat', List.length_take, Nat.min_eq_left hle]
  have hsockets : Reader.Reads (whileOk readSocket (UInt16.ofNat node.sockets.length).toNat)
      ((node.sockets.take (node.sockets.length % 2 ^ 16)).flatMap serializeSocket)
      ((node.sockets.take (node.sockets.length % 2 ^ 16)).map TopologySocket.cut) := by
    rw [hcount]
    exact Reader.Reads.whileOk_map fun socket hsocket =>
      reads_socket_cut (hcpuIds socket (List.mem_of_mem_take hsocket))
  unfold readNode headOf
  simp only [List.append_assoc]
  apply (reads_str_cut _).bind
  apply (reads_u16 _).bind
  apply (reads_u16 _).bind
  apply (reads_u64 _).bind
  apply (reads_u16 _).bind
  exact hsockets.bind_pure _

theorem reads_node {node : TopologyNode} (h : node.Encodable) (prior : TopologyNode) :
    Reader.Reads (readNode prior) (serializeNodeTopology node) (prior.withTopology node) := by
  have hread := reads_node_cut node prior fun socket hsocket => (h.sockets socket hsocket).cpuIds
  rw [h.length_mod, List.take_length, h.cut_eq, ← serializeNodeTopology_eq] at hread
  exact hread

/-- The decoder stops before the sockets that the count does not tell of. -/
theorem deserialize_serialize (node prior : TopologyNode)
    (hcpuIds : ∀ socket ∈ node.sockets, socket.cpuIds.length < 2 ^ 32) :
    ∃ c, deserializeNodeTopology prior (serializeNodeTopology node) =
      some (prior.withTopology node.cut, c) ∧ c.ok = true := by
  obtain ⟨trace, hstart⟩ := (reads_node_cut node prior hcpuIds).start_append
    ((node.sockets.drop (node.sockets.length % 2 ^ 16)).flatMap serializeSocket)
  rw [List.append_assoc, ← List.flatMap_append, List.take_append_drop,
    ← serializeNodeTopology_eq] at hstart
  exact ⟨_, hstart, rfl⟩

theorem length_flatMap_putU32 (cpuIds : List UInt32) :
    (cpuIds.flatMap putU32).length = 4 * cpuIds.length := by
  induction cpuIds with
  | nil => rfl
  | cons cpuId cpuIds ih =>
    have hlength : (putU32 cpuId).length = 4 := length_putNumber 4 _
    rw [List.flatMap_cons, List.length_append, ih, hlength, List.length_cons]
    omega

theorem length_putStr (s : Bytes) : (putStr s).length = 2 + min s.length 0xFFFF := by
  have hlength : (putU16 (UInt16.ofNat (min s.length 0xFFFF))).length = 2 := length_putNumber 2 _
  simp only [putStr]
  rw [List.length_append, hlength, List.length_take]
  omega

theorem length_serializeSocket (socket : TopologySocket) :
    (serializeSocket socket).length =
      11 + min socket.name.length 0xFFFF + 4 * socket.cpuIds.length := by
  simp only [serializeSocket, List.length_append, length_putStr, length_flatMap_putU32, putU8,
    putU16, putU32, length_putNumber, List.length_singleton]
  omega

theorem length_serializeNodeTopology (node : TopologyNode) :
    (serializeNodeTopology node).length =
      16 + min node.hostname.length 0xFFFF + (node.sockets.flatMap serializeSocket).length := by
  simp only [serializeNodeTopology, List.length_append, length_putStr, putU16, putU64,
    length_putNumber]
  omega

/-- Every CPU takes four bytes. -/
theorem cpuIds_le_serialize {node : TopologyNode} {socket : TopologySocket}
    (h : socket ∈ node.sockets) :
    4 * socket.cpuIds.length ≤ (serializeNodeTopology node).length := by
  obtain ⟨before, after, hsockets⟩ := List.append_of_mem h
  have hsocket : 4 * socket.cpuIds.length ≤ (serializeSocket socket).length := by
    rw [length_serializeSocket]
    exact Nat.le_add_left _ _
  have hflat : (serializeSocket socket).length ≤ (node.sockets.flatMap serializeSocket).length := by
    rw [hsockets, List.flatMap_append, List.flatMap_cons, List.length_append, List.length_append]
    omega
  rw [length_serializeNodeTopology]
  exact (hsocket.trans hflat).trans (Nat.le_add_left _ _)

theorem serialize_ne_nil (node : TopologyNode) : serializeNodeTopology node ≠ [] := by
  intro h
  have hlength := congrArg List.length h
  rw [length_serializeNodeTopology, List.length_nil] at hlength
  omega

theorem sound_str : Sound str := (sound_block _ _ _).bind fun _ => sound_block _ _ _

theorem sound_socket : Sound readSocket := by
  apply (sound_block _ _ _).bind
  intro socketId
  apply (sound_block _ _ _).bind
  intro physicalCores
  apply (sound_block _ _ _).bind
  intro logicalCores
  apply sound_str.bind
  intro name
  apply (sound_block _ _ _).bind
  intro cpuCount
  exact ((sound_block _ _ _).whileOk _).bind fun _ => sound_pure _

theorem sound_node (node : TopologyNode) : Sound (readNode node) := by
  apply sound_str.bind
  intro hostname
  apply (sound_block _ _ _).bind
  intro totalPhysicalCores
  apply (sound_block _ _ _).bind
  intro totalLogicalCores
  apply (sound_block _ _ _).bind
  intro memTotalBytes
  apply (sound_block _ _ _).bind
  intro socketCount
  exact (sound_socket.whileOk _).bind fun _ => sound_pure _

/-- The encoding decodes to the same topology, none of its strict prefixes decodes, and on any
bytes the decoder reads within them and starts no round of a loop after an overrun. -/
theorem topologyCodec :
    (∀ node prior : TopologyNode, node.Encodable → ∃ c,
      deserializeNodeTopology prior (serializeNodeTopology node) =
        some (prior.withTopology node, c) ∧ c.ok = true) ∧
    (∀ (node prior : TopologyNode) (part : Bytes), node.Encodable →
      part <+: serializeNodeTopology node → part ≠ serializeNodeTopology node →
      ∃ back c, deserializeNodeTopology prior part = some (back, c) ∧ c.ok = false) ∧
    ∀ (prior : TopologyNode) (data : Bytes), ∃ back c,
      deserializeNodeTopology prior data = some (back, c) ∧ c.pos ≤ data.length ∧
        c.trace.Pairwise fun a b => a = .overrun → b ≠ .round := by
  refine ⟨fun node prior h => ?_, fun node prior part h hpart hne => ?_, fun prior data => ?_⟩
  · obtain ⟨trace, hread⟩ := (reads_node h prior).start
    exact ⟨_, hread, rfl⟩
  · obtain ⟨back, c, hread, _⟩ := (sound_node prior).good (Cursor.good_start part)
    exact ⟨back, c, hread,
      (reads_node h prior).error_of_part (sound_node prior) hpart hne hread⟩
  · obtain ⟨back, c, hread, hgood⟩ := (sound_node prior).good (Cursor.good_start data)
    exact ⟨back, c, hread, hgood.inBounds, hgood.stops⟩

def twoSockets : TopologyNode where
  hostname := [110, 49]
  workerIds := []
  sentinelWorkerId := 0
  sockets := [⟨0, [65], 2, 4, [0, 2, 4, 6]⟩, ⟨1, [66], 2, 4, [1, 3, 5, 7]⟩]
  totalPhysicalCores := 4
  totalLogicalCores := 8
  memTotalBytes := 68719476736

theorem twoSockets_encodable : twoSockets.Encodable := by
  refine ⟨by decide, by decide, ?_⟩
  intro socket hsocket
  have hbounds : ∀ x ∈ twoSockets.sockets, x.name.length ≤ 65535 ∧ x.cpuIds.length < 2 ^ 32 := by
    decide
  exact ⟨(hbounds socket hsocket).1, (hbounds socket hsocket).2⟩

theorem topologyCodec_twoSockets :
    (∃ c, deserializeNodeTopology twoSockets (serializeNodeTopology twoSockets) =
      some (twoSockets, c) ∧ c.ok = true) ∧
    ∃ back c, deserializeNodeTopology twoSockets
      ((serializeNodeTopology twoSockets).take 40) = some (back, c) ∧ c.ok = false := by
  obtain ⟨hback, hcut, _⟩ := topologyCodec
  refine ⟨hback twoSockets twoSockets twoSockets_encodable, ?_⟩
  refine hcut twoSockets twoSockets _ twoSockets_encodable (List.take_prefix _ _) ?_
  intro hwhole
  have hlength := congrArg List.length hwhole
  exact absurd hlength (by decide)

end Gempba.Telemetry
