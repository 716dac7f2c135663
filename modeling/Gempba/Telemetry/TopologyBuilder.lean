import Gempba.Library.Blocks
import Gempba.Library.Collectives
import Gempba.Library.SignedInt
import Gempba.Telemetry.TopologyCodec
import Gempba.Telemetry.TopologyProbe

/-!
# Building the topology of a run

Every rank groups the identities of all ranks by hostname. The sentinel of a
host writes its layout, and the layouts of all ranks come back in one buffer,
at offsets that each rank finds from the sizes.
-/

namespace Gempba.Telemetry

set_option autoImplicit false

open Collectives Calls

/-- The three gathers, in their order. -/
inductive Exchange where
  | IDENTITIES | SIZES | LAYOUTS
  deriving DecidableEq, Repr

def Exchange.Data : Exchange → Type
  | .IDENTITIES => WorkerIdentity
  | .SIZES => ℤ
  | .LAYOUTS => Bytes

def WorkerIdentity.hostText (identity : WorkerIdentity) : Bytes := identity.hostname.text

/-- The nodes so far, and the index of the node of a hostname. -/
structure Grouping where
  nodes : List TopologyNode
  index : Bytes → Option ℕ

def Grouping.empty : Grouping := ⟨[], fun _ => none⟩

def joinNode (identity : WorkerIdentity) (node : TopologyNode) : TopologyNode :=
  { node with
    workerIds := node.workerIds ++ [identity.workerId]
    sentinelWorkerId :=
      if identity.workerId < node.sentinelWorkerId then identity.workerId
      else node.sentinelWorkerId }

def newNode (identity : WorkerIdentity) : TopologyNode :=
  { TopologyNode.blank with
    hostname := identity.hostText
    workerIds := [identity.workerId]
    sentinelWorkerId := identity.workerId }

def addIdentity (g : Grouping) (identity : WorkerIdentity) : Grouping :=
  match g.index identity.hostText with
  | none =>
    { nodes := g.nodes ++ [newNode identity]
      index := Function.update g.index identity.hostText (some g.nodes.length) }
  | some i => { g with nodes := g.nodes.modify i (joinNode identity) }

def groupByHostname (all : List WorkerIdentity) : Grouping := all.foldl addIdentity .empty

def probedNode (host : Host) (self : WorkerIdentity) : TopologyNode :=
  fillLocalHostFields host { TopologyNode.blank with hostname := self.hostText }

def isSentinel (rank : UInt32) (g : Grouping) (hostname : Bytes) : Bool :=
  match (g.index hostname).bind fun i => g.nodes[i]? with
  | some node => node.sentinelWorkerId = rank
  | none => false

def selfBlob (host : Host) (self : WorkerIdentity) (rank : UInt32) (g : Grouping) : Bytes :=
  if isSentinel rank g self.hostText then serializeNodeTopology (probedNode host self) else []

def displacements (total : ℤ) : List ℤ → List ℤ × ℤ
  | [] => ([], total)
  | size :: sizes =>
    let rest := displacements (SignedInt.wrap (total + size)) sizes
    (total :: rest.1, rest.2)

/-- What `MPI_Allgatherv` leaves in a buffer of the given size. -/
def receive (total : ℤ) (displs : List ℤ) (blobs : List Bytes) : Bytes :=
  ((displs.map Int.toNat).zip blobs).foldl Blocks.place (List.replicate total.toNat 0)

def setLayout (fragment node : TopologyNode) : TopologyNode :=
  { node with
    totalPhysicalCores := fragment.totalPhysicalCores
    totalLogicalCores := fragment.totalLogicalCores
    memTotalBytes := fragment.memTotalBytes
    sockets := fragment.sockets }

/-- The block of one rank, decoded into the node of its hostname. -/
def mergeLayout (index : Bytes → Option ℕ) (nodes : List TopologyNode) (block : Bytes) :
    List TopologyNode :=
  match deserializeNodeTopology .blank block with
  | none => nodes
  | some (fragment, c) =>
    if c.ok = false then nodes
    else
      match index fragment.hostname with
      | none => nodes
      | some i => nodes.modify i (setLayout fragment)

/-- The loop over the ranks, with the size and the offset of each. -/
def mergeLayouts (index : Bytes → Option ℕ) (gathered : Bytes) :
    List (ℤ × ℤ) → List TopologyNode → List TopologyNode
  | [], nodes => nodes
  | (size, displ) :: entries, nodes =>
    if size ≤ 0 then mergeLayouts index gathered entries nodes
    else
      mergeLayouts index gathered entries
        (mergeLayout index nodes ((gathered.drop displ.toNat).take size.toNat))

def singleSnapshot (host : Host) (rank : UInt32) : TopologySnapshot :=
  let self := buildSelfIdentity host rank
  let node := fillLocalHostFields host { TopologyNode.blank with
    hostname := self.hostText
    workerIds := [rank]
    sentinelWorkerId := rank }
  { nodes := [node], identities := [self] }

/-- What a rank does with the answers of the gathers. -/
def mergedSnapshot (all : List WorkerIdentity) (sizes : List ℤ) (blobs : List Bytes) :
    TopologySnapshot :=
  let g := groupByHostname all
  let displs := displacements 0 sizes
  let gathered := receive displs.2 displs.1 blobs
  { nodes := mergeLayouts g.index gathered (sizes.zip displs.1) g.nodes, identities := all }

abbrev TopologyProgram := RankProgram Exchange.Data

def gatherIdentities (self : WorkerIdentity) : TopologyProgram (List WorkerIdentity) :=
  allgather Exchange.IDENTITIES self

def gatherSizes (size : ℤ) : TopologyProgram (List ℤ) := allgather Exchange.SIZES size

def gatherLayouts (blob : Bytes) : TopologyProgram (List Bytes) := allgather Exchange.LAYOUTS blob

def buildMpiSnapshot (host : Host) (initialized : Bool) (rank worldSize : UInt32) :
    TopologyProgram TopologySnapshot := do
  let self := buildSelfIdentity host rank
  if !initialized || worldSize ≤ 1 then return singleSnapshot host rank
  else
    let all ← gatherIdentities self
    let blob := selfBlob host self rank (groupByHostname all)
    let size := SignedInt.wrap blob.length
    let sizes ← gatherSizes size
    let blobs ← gatherLayouts blob
    return mergedSnapshot all sizes blobs

def buildTopologySnapshot (mode : RuntimeMode) (host : Host) (initialized : Bool)
    (rank worldSize : UInt32) : TopologyProgram TopologySnapshot :=
  match mode with
  | .MT_ONLY => return singleSnapshot host rank
  | .MP_MPI => buildMpiSnapshot host initialized rank worldSize

end Gempba.Telemetry
