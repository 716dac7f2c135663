import Gempba.Telemetry.TopologyMerge

/-!
# Agreement on the topology

Whatever the order in which the ranks move, they all end with one snapshot. Its
nodes are the hosts, each with its ranks and with what its lowest rank has
found out.
-/

namespace Gempba.Telemetry

set_option autoImplicit false

open Collectives Transition

variable {worldSize : UInt32}

/-- The layout is the probed one, with the names of the sockets as far as they are written. -/
structure LayoutOf (probed node : TopologyNode) : Prop where
  totalPhysicalCores : node.totalPhysicalCores = probed.totalPhysicalCores
  totalLogicalCores : node.totalLogicalCores = probed.totalLogicalCores
  memTotalBytes : node.memTotalBytes = probed.memTotalBytes
  sockets : probed.sockets.length ≤ 0xFFFF →
    node.sockets = probed.sockets.map TopologySocket.cut

/-- The nodes are the hosts: their hostnames are distinct, and every rank is listed at its own. -/
structure SnapshotOf (hosts : Fin worldSize.toNat → Host) (snapshot : TopologySnapshot) :
    Prop where
  identities : snapshot.identities = List.ofFn (identities hosts)
  hostnames : (snapshot.nodes.map TopologyNode.hostname).Nodup
  covered : ∀ r, ∃ node ∈ snapshot.nodes, node.hostname = hostOf hosts r
  workerIds : ∀ node ∈ snapshot.nodes, node.workerIds =
    ((List.finRange worldSize.toNat).filter fun r => hostOf hosts r = node.hostname).map rankId
  sentinel : ∀ node ∈ snapshot.nodes, ∃ r, hostOf hosts r = node.hostname ∧ IsLowest hosts r ∧
    node.sentinelWorkerId = rankId r ∧ LayoutOf (probed hosts r) node

section Snapshot

variable {hosts : Fin worldSize.toNat → Host} {node : TopologyNode}

theorem layoutOf_cut (probed group : TopologyNode) :
    LayoutOf probed (setLayout probed.cut group) where
  totalPhysicalCores := rfl
  totalLogicalCores := rfl
  memTotalBytes := rfl
  sockets h := by
    have hmod : probed.sockets.length % 2 ^ 16 = probed.sockets.length :=
      Nat.mod_eq_of_lt (Nat.lt_succ_of_le h)
    change (probed.sockets.take (probed.sockets.length % 2 ^ 16)).map _ = _
    rw [hmod, List.take_length]

theorem nodup_agreed (hsizes : ∑ r, (contributed hosts r).length < 2 ^ 31) :
    ((agreedSnapshot hosts).nodes.map TopologyNode.hostname).Nodup := by
  rw [List.nodup_iff_getElem?_ne_getElem?]
  intro i j hij hj heq
  rw [List.length_map] at hj
  have hnodeI := List.getElem?_eq_getElem (hij.trans hj)
  have hnodeJ := List.getElem?_eq_getElem hj
  have hindexI := agreed_index hsizes hnodeI
  have hindexJ := agreed_index hsizes hnodeJ
  rw [List.getElem?_map, List.getElem?_map, hnodeI, hnodeJ] at heq
  have hhost : _ = _ := Option.some.inj heq
  rw [hhost, hindexJ] at hindexI
  have heq' : j = i := Option.some.inj hindexI
  omega

theorem snapshotOf_agreed (hsizes : ∑ r, (contributed hosts r).length < 2 ^ 31) :
    SnapshotOf hosts (agreedSnapshot hosts) where
  identities := rfl
  hostnames := nodup_agreed hsizes
  covered r := by
    obtain ⟨i, group, _, hgroup, hhost⟩ := exists_node hosts r
    obtain ⟨_, _, _, _, hnode⟩ := agreed_group hsizes hgroup
    exact ⟨_, List.mem_of_getElem? hnode, hhost⟩
  workerIds node hmem := by
    obtain ⟨i, hi⟩ := List.mem_iff_getElem?.mp hmem
    obtain ⟨group, r, hgroup, _, _, _, rfl⟩ := agreed_node hsizes hi
    have hof := (worldGroups_grouped hosts).nodes group (List.mem_of_getElem? hgroup)
    exact hof.members.trans (membersOf_identities hosts _)
  sentinel node hmem := by
    obtain ⟨i, hi⟩ := List.mem_iff_getElem?.mp hmem
    obtain ⟨group, r, _, hhost, hr, hsentinel, rfl⟩ := agreed_node hsizes hi
    exact ⟨r, hhost, hr, hsentinel, layoutOf_cut _ group⟩

end Snapshot

section Runs

variable {hosts : Fin worldSize.toNat → Host} {r : Fin worldSize.toNat}
  {s : Fin worldSize.toNat → Party Exchange.Data TopologySnapshot}

/-- A rank that has ended has the snapshot, and has made all its contributions. -/
theorem done_agreed (hworld : 1 < worldSize) (hs : (machine (worldPrograms hosts)).Reachable s)
    {snapshot : TopologySnapshot} (hdone : (s r).program = .done snapshot) :
    snapshot = agreedSnapshot hosts ∧ (s r).log = contributions r (worldRounds hosts) := by
  obtain ⟨k, hat⟩ := placed_reachable (worldPrograms_follow hosts hworld) hs r
  have hk : ¬ k < (worldRounds hosts).length := by
    intro hk
    obtain ⟨_, _, _, hprogram, _⟩ := hat.round hk
    rw [hdone] at hprogram
    cases hprogram
  obtain ⟨hprogram, hlog⟩ := hat.finished hk
  rw [hdone] at hprogram
  cases hprogram
  exact ⟨rfl, hlog⟩

theorem mem_contributions {blob : Bytes} :
    ⟨.LAYOUTS, blob⟩ ∈ contributions r (worldRounds hosts) ↔ blob = contributed hosts r := by
  rw [contributions, List.mem_map]
  constructor
  · rintro ⟨round, hround, heq⟩
    rw [worldRounds, List.mem_cons, List.mem_cons, List.mem_singleton] at hround
    obtain rfl | rfl | rfl := hround
    · have hkind : Exchange.IDENTITIES = .LAYOUTS := congrArg Sigma.fst heq
      cases hkind
    · have hkind : Exchange.SIZES = .LAYOUTS := congrArg Sigma.fst heq
      cases hkind
    · exact (eq_of_heq (Sigma.mk.inj_iff.mp heq).2).symm
  · rintro rfl
    refine ⟨layoutRound hosts, ?_, rfl⟩
    rw [worldRounds, List.mem_cons, List.mem_cons, List.mem_singleton]
    exact Or.inr (Or.inr rfl)

theorem existsUnique_layout (hworld : 1 < worldSize)
    (hs : (machine (worldPrograms hosts)).Reachable s)
    (hdone : ∀ r, (s r).program = .done (agreedSnapshot hosts)) (q : Fin worldSize.toNat) :
    ∃! r, hostOf hosts r = hostOf hosts q ∧ ∃ blob ≠ [], ⟨.LAYOUTS, blob⟩ ∈ (s r).log := by
  have hlayout : ∀ r, (∃ blob ≠ [], ⟨.LAYOUTS, blob⟩ ∈ (s r).log) ↔ contributed hosts r ≠ [] := by
    intro r
    rw [(done_agreed hworld hs (hdone r)).2]
    constructor
    · rintro ⟨blob, hne, hmem⟩
      rwa [← mem_contributions.mp hmem]
    · intro hne
      exact ⟨_, hne, mem_contributions.mpr rfl⟩
  simp only [hlayout]
  exact existsUnique_contributor hosts q

/-- All ranks end with one snapshot, in any order of their moves and after a bounded number of
them. Its nodes are the hosts, with the layouts that their lowest ranks have found out. -/
theorem buildMpiSnapshot_agrees (hosts : Fin worldSize.toNat → Host) (hworld : 1 < worldSize)
    (hsizes : ∑ r, (contributed hosts r).length < 2 ^ 31) :
    ∃ snapshot, SnapshotOf hosts snapshot ∧
      (∀ s, (machine (worldPrograms hosts)).Reachable s →
        (∀ r result, (s r).program = .done result → result = snapshot) ∧
        ((∀ r, (s r).program = .done snapshot) ∨ ∃ r t, step r s = .moved t) ∧
        ((∀ r, (s r).program = .done snapshot) → ∀ q, ∃! r, hostOf hosts r = hostOf hosts q ∧
          ∃ blob ≠ [], ⟨.LAYOUTS, blob⟩ ∈ (s r).log)) ∧
      ∀ ranks t, (machine (worldPrograms hosts)).run ranks
          (fun r => ⟨worldPrograms hosts r, [], false⟩) = some t →
        ranks.length ≤ worldSize.toNat * 6 := by
  have hfollow := worldPrograms_follow hosts hworld
  refine ⟨agreedSnapshot hosts, snapshotOf_agreed hsizes, fun s hs => ⟨?_, ?_, ?_⟩, ?_⟩
  · intro r result hdone
    exact (done_agreed hworld hs hdone).1
  · exact exists_step (placed_reachable hfollow hs)
  · exact existsUnique_layout hworld hs
  · intro ranks t hrun
    exact run_length_le hfollow hrun

end Runs

/-! Two ranks on a host without the hardware locality library. -/

section TwoRanks

def plainHost (cpuBrand : Bytes) : Host where
  hostname := none
  pid := 0
  affinity := none
  memTotalBytes := 0
  hardwareConcurrency := 1
  cpuBrand := cpuBrand
  hwloc := none

def twoRanks (cpuBrand : Bytes) : Fin (2 : UInt32).toNat → Host := fun _ => plainHost cpuBrand

theorem twoRanks_sizes (cpuBrand : Bytes) :
    ∑ r, (contributed (twoRanks cpuBrand) r).length < 2 ^ 31 := by
  have hle := Finset.sum_le_card_nsmul Finset.univ
    (fun r => (contributed (twoRanks cpuBrand) r).length) 400000
    fun _ _ => length_contributed_le rfl
  have hcard : Fintype.card (Fin (2 : UInt32).toNat) = 2 := Fintype.card_fin 2
  rw [Finset.card_univ, hcard, smul_eq_mul] at hle
  omega

theorem buildMpiSnapshot_agrees_two :
    ∑ r, (contributed (twoRanks []) r).length < 2 ^ 31 ∧
      ∃ snapshot, SnapshotOf (twoRanks []) snapshot ∧
        ∀ s, (machine (worldPrograms (twoRanks []))).Reachable s →
          (∀ r result, (s r).program = .done result → result = snapshot) ∧
          ((∀ r, (s r).program = .done snapshot) ∨ ∃ r t, step r s = .moved t) := by
  have hsizes := twoRanks_sizes []
  obtain ⟨snapshot, hsnapshot, hruns, _⟩ :=
    buildMpiSnapshot_agrees (twoRanks []) (by decide) hsizes
  exact ⟨hsizes, snapshot, hsnapshot, fun s hs => ⟨(hruns s hs).1, (hruns s hs).2.1⟩⟩

/-- A name of a socket that is too long is cut. -/
theorem twoRanks_cut {cpuBrand : Bytes} (hlong : 0xFFFF < cpuBrand.length) {node : TopologyNode}
    (hnode : node ∈ (agreedSnapshot (twoRanks cpuBrand)).nodes)
    (r : Fin (2 : UInt32).toNat) : node.sockets ≠ (probed (twoRanks cpuBrand) r).sockets := by
  obtain ⟨q, _, _, _, hlayout⟩ := (snapshotOf_agreed (twoRanks_sizes cpuBrand)).sentinel node hnode
  have hprobed : ∀ r, ∃ logicalCores, (probed (twoRanks cpuBrand) r).sockets =
      [fallbackSocket (plainHost cpuBrand) logicalCores] :=
    fun r => fillLocalHostFields_sockets _ _ rfl
  obtain ⟨logicalCores, hq⟩ := hprobed q
  obtain ⟨logicalCores', hr⟩ := hprobed r
  have hsockets := hlayout.sockets (by rw [hq, List.length_singleton]; decide)
  rw [hsockets, hq, hr]
  intro heq
  have hname : cpuBrand.take 0xFFFF = cpuBrand :=
    congrArg TopologySocket.name (List.cons.inj heq).1
  rw [List.take_eq_self_iff] at hname
  omega

/-- The name of the only socket has 65536 bytes, of which the nodes have all but the last. -/
theorem buildMpiSnapshot_cuts :
    1 < (2 : UInt32) ∧
      ∑ r, (contributed (twoRanks (List.replicate 65536 120)) r).length < 2 ^ 31 ∧
      ∃ s, (machine (worldPrograms (twoRanks (List.replicate 65536 120)))).Reachable s ∧
        ∃ r snapshot, (s r).program = .done snapshot ∧ ∃ node ∈ snapshot.nodes,
          ∀ q, node.sentinelWorkerId = rankId q →
            node.sockets ≠ (probed (twoRanks (List.replicate 65536 120)) q).sockets := by
  generalize hbrand : List.replicate 65536 (120 : UInt8) = cpuBrand
  have hlong : 0xFFFF < cpuBrand.length := by
    rw [← hbrand, List.length_replicate]
    omega
  have hfollow := worldPrograms_follow (twoRanks cpuBrand) (by decide)
  obtain ⟨s, hs, hdone⟩ := exists_done hfollow (Machine.ReachableWhere.start rfl)
  have r : Fin (2 : UInt32).toNat := ⟨0, by decide⟩
  obtain ⟨node, hnode, _⟩ := (snapshotOf_agreed (twoRanks_sizes cpuBrand)).covered r
  exact ⟨by decide, twoRanks_sizes cpuBrand, s, hs, r, _, hdone r, node, hnode,
    fun q _ => twoRanks_cut hlong hnode q⟩

end TwoRanks

end Gempba.Telemetry
