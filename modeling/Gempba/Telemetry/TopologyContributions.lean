import Gempba.Telemetry.HostGroups

/-!
# What the ranks contribute

All ranks find the same groups. One layout is contributed for each host: that
of the lowest rank on it.
-/

namespace Gempba.Telemetry

set_option autoImplicit false

open Collectives Calls

variable {worldSize : UInt32}

def rankId (r : Fin worldSize.toNat) : UInt32 := UInt32.ofNat r

theorem toNat_rankId (r : Fin worldSize.toNat) : (rankId r).toNat = r :=
  UInt32.toNat_ofNat_of_lt' (Nat.lt_trans r.isLt worldSize.toNat_lt)

theorem rankId_inj {q r : Fin worldSize.toNat} : rankId q = rankId r ↔ q = r := by
  constructor
  · intro h
    apply Fin.ext
    rw [← toNat_rankId q, h, toNat_rankId]
  · exact congrArg rankId

theorem rankId_le {q r : Fin worldSize.toNat} : rankId q ≤ rankId r ↔ q ≤ r := by
  rw [UInt32.le_iff_toNat_le, toNat_rankId, toNat_rankId]
  rfl

section World

variable (hosts : Fin worldSize.toNat → Host)

def identities (r : Fin worldSize.toNat) : WorkerIdentity :=
  buildSelfIdentity (hosts r) (rankId r)

def hostOf (r : Fin worldSize.toNat) : Bytes := (identities hosts r).hostText

def worldGroups : Grouping := groupByHostname (List.ofFn (identities hosts))

/-- What a rank finds out about its own host. -/
def probed (r : Fin worldSize.toNat) : TopologyNode := probedNode (hosts r) (identities hosts r)

/-- What a rank gives to the gather of the layouts. -/
def contributed (r : Fin worldSize.toNat) : Bytes :=
  selfBlob (hosts r) (identities hosts r) (rankId r) (worldGroups hosts)

def contributedSize (r : Fin worldSize.toNat) : ℤ := SignedInt.wrap (contributed hosts r).length

def identityRound : Round worldSize.toNat Exchange.Data := ⟨.IDENTITIES, identities hosts⟩
def sizeRound : Round worldSize.toNat Exchange.Data := ⟨.SIZES, contributedSize hosts⟩
def layoutRound : Round worldSize.toNat Exchange.Data := ⟨.LAYOUTS, contributed hosts⟩

def worldRounds : List (Round worldSize.toNat Exchange.Data) :=
  [identityRound hosts, sizeRound hosts, layoutRound hosts]

def agreedSnapshot : TopologySnapshot :=
  mergedSnapshot (List.ofFn (identities hosts)) (List.ofFn (contributedSize hosts))
    (List.ofFn (contributed hosts))

def worldPrograms (r : Fin worldSize.toNat) : TopologyProgram TopologySnapshot :=
  buildMpiSnapshot (hosts r) true (rankId r) worldSize

theorem worldPrograms_follow (hworld : 1 < worldSize) (r : Fin worldSize.toNat) :
    Follows r (worldRounds hosts) (worldPrograms hosts r) (agreedSnapshot hosts) := by
  have hmany : (!true || decide (worldSize ≤ 1)) = false :=
    decide_eq_false (UInt32.not_le.mpr hworld)
  rw [worldPrograms, buildMpiSnapshot]
  simp only [hmany, Bool.false_eq_true, if_false]
  unfold worldRounds identityRound sizeRound layoutRound gatherIdentities gatherSizes gatherLayouts
  apply follows_allgather
  apply follows_allgather
  apply follows_allgather
  rfl

/-- The lowest rank of its host. -/
def IsLowest (r : Fin worldSize.toNat) : Prop := ∀ q, hostOf hosts q = hostOf hosts r → r ≤ q

end World

section Groups

variable {hosts : Fin worldSize.toNat → Host} {node : TopologyNode} {r q : Fin worldSize.toNat}
  {i : ℕ}

theorem worldGroups_grouped (hosts : Fin worldSize.toNat → Host) :
    Grouped (List.ofFn (identities hosts)) (worldGroups hosts) :=
  grouped_all _

theorem IsLowest.unique (hr : IsLowest hosts r) (hq : IsLowest hosts q)
    (h : hostOf hosts r = hostOf hosts q) : r = q :=
  le_antisymm (hr q h.symm) (hq r h)

/-- The members of a hostname are its ranks. -/
theorem membersOf_identities (hosts : Fin worldSize.toNat → Host) (hostname : Bytes) :
    membersOf hostname (List.ofFn (identities hosts)) =
      ((List.finRange worldSize.toNat).filter fun r => hostOf hosts r = hostname).map rankId := by
  rw [membersOf, List.ofFn_eq_map, List.filter_map, List.map_map]
  rfl

theorem mem_members {hostname : Bytes} {w : UInt32} :
    w ∈ membersOf hostname (List.ofFn (identities hosts)) ↔
      ∃ r, hostOf hosts r = hostname ∧ rankId r = w := by
  rw [membersOf_identities, List.mem_map]
  constructor
  · rintro ⟨r, hr, hw⟩
    exact ⟨r, of_decide_eq_true (List.mem_filter.mp hr).2, hw⟩
  · rintro ⟨r, hr, hw⟩
    exact ⟨r, List.mem_filter.mpr ⟨List.mem_finRange r, decide_eq_true hr⟩, hw⟩

theorem sentinel_lowest (hnode : node ∈ (worldGroups hosts).nodes) :
    ∃ r, hostOf hosts r = node.hostname ∧ IsLowest hosts r ∧ node.sentinelWorkerId = rankId r := by
  have hof := (worldGroups_grouped hosts).nodes node hnode
  have hmem := hof.sentinel_mem
  rw [hof.members] at hmem
  obtain ⟨r, hr, hsentinel⟩ := mem_members.mp hmem
  refine ⟨r, hr, fun q hq => ?_, hsentinel.symm⟩
  rw [← rankId_le, hsentinel]
  apply hof.sentinel_le
  rw [hof.members]
  exact mem_members.mpr ⟨q, hq.trans hr, rfl⟩

theorem exists_node (hosts : Fin worldSize.toNat → Host) (r : Fin worldSize.toNat) :
    ∃ i node, (worldGroups hosts).index (hostOf hosts r) = some i ∧
      (worldGroups hosts).nodes[i]? = some node ∧ node.hostname = hostOf hosts r := by
  have hgrouped := worldGroups_grouped hosts
  obtain ⟨i, hi⟩ := hgrouped.known (identities hosts r) (List.mem_ofFn.mpr ⟨r, rfl⟩)
  obtain ⟨node, hnode, hhost⟩ := (hgrouped.index_iff _ i).mp hi
  exact ⟨i, node, hi, hnode, hhost⟩

theorem isSentinel_iff :
    isSentinel (rankId r) (worldGroups hosts) (hostOf hosts r) = true ↔ IsLowest hosts r := by
  obtain ⟨i, node, hindex, hnode, hhost⟩ := exists_node hosts r
  obtain ⟨q, hq, hlowest, hsentinel⟩ := sentinel_lowest (List.mem_of_getElem? hnode)
  rw [isSentinel, hindex, Option.bind_some, hnode]
  simp only [decide_eq_true_eq]
  rw [hsentinel, rankId_inj]
  constructor
  · rintro rfl
    exact hlowest
  · intro hr
    exact hlowest.unique hr (hq.trans hhost)

theorem contributed_of_lowest (h : IsLowest hosts r) :
    contributed hosts r = serializeNodeTopology (probed hosts r) :=
  if_pos (isSentinel_iff.mpr h)

theorem contributed_of_not_lowest (h : ¬ IsLowest hosts r) : contributed hosts r = [] :=
  if_neg (mt isSentinel_iff.mp h)

theorem contributed_ne_nil : contributed hosts r ≠ [] ↔ IsLowest hosts r := by
  constructor
  · intro hne
    by_contra hnot
    exact hne (contributed_of_not_lowest hnot)
  · intro h
    rw [contributed_of_lowest h]
    exact serialize_ne_nil _

/-- A layout with one socket is short. -/
theorem length_contributed_le (h : (hosts r).hwloc = none) :
    (contributed hosts r).length ≤ 400000 := by
  obtain hr | hr := Classical.em (IsLowest hosts r)
  · obtain ⟨logicalCores, hsockets⟩ := fillLocalHostFields_sockets (hosts r)
      { TopologyNode.blank with hostname := (identities hosts r).hostText } h
    have hone : (probed hosts r).sockets = [fallbackSocket (hosts r) logicalCores] := hsockets
    have hcpus : (fallbackSocket (hosts r) logicalCores).cpuIds.length = logicalCores.toNat := by
      rw [fallbackSocket, List.length_map, List.length_range]
    have hlt := logicalCores.toNat_lt
    rw [contributed_of_lowest hr, length_serializeNodeTopology, hone, List.flatMap_singleton,
      length_serializeSocket, hcpus]
    omega
  · rw [contributed_of_not_lowest hr]
    exact Nat.zero_le _

/-- One rank of each host has something to contribute. -/
theorem existsUnique_contributor (hosts : Fin worldSize.toNat → Host) (q : Fin worldSize.toNat) :
    ∃! r, hostOf hosts r = hostOf hosts q ∧ contributed hosts r ≠ [] := by
  obtain ⟨i, node, _, hnode, hhost⟩ := exists_node hosts q
  obtain ⟨r, hr, hlowest, _⟩ := sentinel_lowest (List.mem_of_getElem? hnode)
  refine ⟨r, ⟨hr.trans hhost, contributed_ne_nil.mpr hlowest⟩, ?_⟩
  rintro r' ⟨hr', hne⟩
  exact (contributed_ne_nil.mp hne).unique hlowest (hr'.trans (hr.trans hhost).symm)

end Groups

end Gempba.Telemetry
