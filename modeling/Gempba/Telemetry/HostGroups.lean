import Gempba.Telemetry.TopologyBuilder

/-!
# The nodes as groups of ranks

After any number of identities, the nodes are the groups of those with one
hostname, and the index finds each of them.
-/

namespace Gempba.Telemetry

set_option autoImplicit false

/-- The identities of a hostname, in their order. -/
def membersOf (hostname : Bytes) (seen : List WorkerIdentity) : List UInt32 :=
  (seen.filter fun identity => identity.hostText = hostname).map WorkerIdentity.workerId

/-- The node has the identities of its hostname, and the least of them. -/
structure NodeOf (seen : List WorkerIdentity) (node : TopologyNode) : Prop where
  members : node.workerIds = membersOf node.hostname seen
  sentinel_mem : node.sentinelWorkerId ∈ node.workerIds
  sentinel_le : ∀ w ∈ node.workerIds, node.sentinelWorkerId ≤ w

structure Grouped (seen : List WorkerIdentity) (g : Grouping) : Prop where
  index_iff : ∀ h i, g.index h = some i ↔ ∃ node, g.nodes[i]? = some node ∧ node.hostname = h
  known : ∀ identity ∈ seen, ∃ i, g.index identity.hostText = some i
  nodes : ∀ node ∈ g.nodes, NodeOf seen node

variable {seen : List WorkerIdentity} {g : Grouping} {identity : WorkerIdentity}
  {node : TopologyNode} {i : ℕ}

theorem grouped_empty : Grouped [] .empty where
  index_iff h i := by
    constructor
    · intro hindex
      cases hindex
    · rintro ⟨node, hnode, _⟩
      cases hnode
  known identity hmem := absurd hmem List.not_mem_nil
  nodes node hmem := absurd hmem List.not_mem_nil

theorem membersOf_other {hostname : Bytes} (hne : identity.hostText ≠ hostname) :
    membersOf hostname (seen ++ [identity]) = membersOf hostname seen := by
  have hnone : [identity].filter (fun other => other.hostText = hostname) = [] :=
    List.filter_cons_of_neg (by rwa [decide_eq_true_iff])
  rw [membersOf, List.filter_append, hnone, List.append_nil]
  rfl

theorem membersOf_same :
    membersOf identity.hostText (seen ++ [identity]) =
      membersOf identity.hostText seen ++ [identity.workerId] := by
  have hall : [identity].filter (fun other => other.hostText = identity.hostText) = [identity] :=
    List.filter_cons_of_pos (decide_eq_true rfl)
  rw [membersOf, List.filter_append, hall, List.map_append]
  rfl

/-- An identity of another hostname does not concern the node. -/
theorem NodeOf.other (h : NodeOf seen node) (hne : identity.hostText ≠ node.hostname) :
    NodeOf (seen ++ [identity]) node where
  members := h.members.trans (membersOf_other hne).symm
  sentinel_mem := h.sentinel_mem
  sentinel_le := h.sentinel_le

theorem NodeOf.joined (h : NodeOf seen node) (heq : identity.hostText = node.hostname) :
    NodeOf (seen ++ [identity]) (joinNode identity node) where
  members := by
    have hmembers : node.workerIds = membersOf identity.hostText seen := by
      rw [h.members, heq]
    change node.workerIds ++ [identity.workerId] = membersOf node.hostname _
    rw [← heq, membersOf_same, hmembers]
  sentinel_mem := by
    change (if _ then _ else _) ∈ node.workerIds ++ [identity.workerId]
    split
    · exact List.mem_append_right _ List.mem_cons_self
    · exact List.mem_append_left _ h.sentinel_mem
  sentinel_le w hw := by
    change (if _ then _ else _) ≤ w
    obtain hw | hw := List.mem_append.mp hw
    · split
      · rename_i hlt
        exact UInt32.le_trans (UInt32.le_of_lt hlt) (h.sentinel_le w hw)
      · exact h.sentinel_le w hw
    · rw [List.mem_singleton.mp hw]
      split
      · exact UInt32.le_refl _
      · rename_i hle
        exact UInt32.not_lt.mp hle

theorem nodeOf_new (hseen : ∀ other ∈ seen, other.hostText ≠ identity.hostText) :
    NodeOf (seen ++ [identity]) (newNode identity) where
  members := by
    have hnone : membersOf identity.hostText seen = [] := by
      rw [membersOf, List.map_eq_nil_iff, List.filter_eq_nil_iff]
      intro other hmem
      rw [decide_eq_true_iff]
      exact hseen other hmem
    change [identity.workerId] = membersOf identity.hostText _
    rw [membersOf_same, hnone]
    rfl
  sentinel_mem := List.mem_cons_self
  sentinel_le w hw := by
    rw [List.mem_singleton.mp hw]
    exact UInt32.le_refl _

theorem Grouped.hostname_ne (h : Grouped seen g) {hostname : Bytes}
    (hindex : g.index hostname = none) {j : ℕ} (hnode : g.nodes[j]? = some node) :
    hostname ≠ node.hostname := by
  rintro rfl
  rw [(h.index_iff _ j).mpr ⟨node, hnode, rfl⟩] at hindex
  cases hindex

theorem Grouped.added (h : Grouped seen g) (hindex : g.index identity.hostText = none) :
    Grouped (seen ++ [identity])
      { nodes := g.nodes ++ [newNode identity]
        index := Function.update g.index identity.hostText (some g.nodes.length) } where
  index_iff hostname i := by
    have hlast : (g.nodes ++ [newNode identity])[g.nodes.length]? = some (newNode identity) :=
      List.getElem?_concat_length
    obtain rfl | hne := eq_or_ne hostname identity.hostText
    · simp only [Function.update_self, Option.some.injEq]
      constructor
      · rintro rfl
        exact ⟨_, hlast, rfl⟩
      · rintro ⟨node, hnode, hhost⟩
        obtain hi | hi | hi := Nat.lt_trichotomy i g.nodes.length
        · rw [List.getElem?_append_left hi] at hnode
          exact absurd hhost.symm (h.hostname_ne hindex hnode)
        · exact hi.symm
        · rw [List.getElem?_eq_none (by rw [List.length_append]; exact hi)] at hnode
          cases hnode
    · simp only [Function.update_of_ne hne]
      rw [h.index_iff]
      constructor
      · rintro ⟨node, hnode, hhost⟩
        obtain ⟨hi, _⟩ := List.getElem?_eq_some_iff.mp hnode
        exact ⟨node, by rwa [List.getElem?_append_left hi], hhost⟩
      · rintro ⟨node, hnode, hhost⟩
        obtain hi | hi := Nat.lt_or_ge i g.nodes.length
        · rw [List.getElem?_append_left hi] at hnode
          exact ⟨node, hnode, hhost⟩
        · rw [List.getElem?_append_right hi] at hnode
          have hnew := List.mem_singleton.mp (List.mem_of_getElem? hnode)
          rw [hnew] at hhost
          exact absurd hhost.symm hne
  known other hmem := by
    obtain heq | hne := eq_or_ne other.hostText identity.hostText
    · refine ⟨g.nodes.length, ?_⟩
      simp only [heq, Function.update_self]
    · obtain hmem | hmem := List.mem_append.mp hmem
      · obtain ⟨i, hi⟩ := h.known other hmem
        refine ⟨i, ?_⟩
        simp only [Function.update_of_ne hne]
        exact hi
      · exact absurd (congrArg _ (List.mem_singleton.mp hmem)) hne
  nodes node hmem := by
    obtain hmem | hmem := List.mem_append.mp hmem
    · obtain ⟨j, hj⟩ := List.mem_iff_getElem?.mp hmem
      exact (h.nodes node hmem).other (h.hostname_ne hindex hj)
    · rw [List.mem_singleton.mp hmem]
      apply nodeOf_new
      intro other hother heq
      obtain ⟨i, hi⟩ := h.known other hother
      rw [heq, hindex] at hi
      cases hi

theorem getElem?_join {nodes : List TopologyNode} {j : ℕ} :
    (nodes.modify i (joinNode identity))[j]? = some node ↔
      ∃ prior, nodes[j]? = some prior ∧
        (if i = j then joinNode identity prior else prior) = node := by
  rw [List.getElem?_modify]
  exact Option.map_eq_some_iff

theorem Grouped.joined (h : Grouped seen g) (hindex : g.index identity.hostText = some i) :
    Grouped (seen ++ [identity]) { g with nodes := g.nodes.modify i (joinNode identity) } where
  index_iff hostname j := by
    have hhost : ∀ prior, (if i = j then joinNode identity prior else prior).hostname =
        prior.hostname := by
      intro prior
      split <;> rfl
    rw [h.index_iff]
    simp only [getElem?_join]
    constructor
    · rintro ⟨prior, hprior, rfl⟩
      exact ⟨_, ⟨prior, hprior, rfl⟩, hhost prior⟩
    · rintro ⟨_, ⟨prior, hprior, rfl⟩, rfl⟩
      exact ⟨prior, hprior, (hhost prior).symm⟩
  known other hmem := by
    obtain hmem | hmem := List.mem_append.mp hmem
    · exact h.known other hmem
    · rw [List.mem_singleton.mp hmem]
      exact ⟨i, hindex⟩
  nodes node hmem := by
    obtain ⟨joined, hjoined, hhost⟩ := (h.index_iff _ _).mp hindex
    obtain ⟨j, hj⟩ := List.mem_iff_getElem?.mp hmem
    obtain ⟨prior, hprior, rfl⟩ := getElem?_join.mp hj
    have hof := h.nodes prior (List.mem_of_getElem? hprior)
    obtain rfl | hne := eq_or_ne i j
    · rw [if_pos rfl]
      rw [hjoined] at hprior
      cases hprior
      exact hof.joined hhost.symm
    · rw [if_neg hne]
      apply hof.other
      intro heq
      have hprior' := (h.index_iff identity.hostText j).mpr ⟨prior, hprior, heq.symm⟩
      rw [hindex] at hprior'
      exact hne (Option.some.inj hprior')

theorem grouped_add (h : Grouped seen g) (identity : WorkerIdentity) :
    Grouped (seen ++ [identity]) (addIdentity g identity) := by
  rw [addIdentity]
  cases hindex : g.index identity.hostText with
  | none => exact h.added hindex
  | some i => exact h.joined hindex

theorem grouped_all (all : List WorkerIdentity) : Grouped all (groupByHostname all) := by
  induction all using List.reverseRecOn with
  | nil => exact grouped_empty
  | append_singleton all identity ih =>
    have hstep : groupByHostname (all ++ [identity]) = addIdentity (groupByHostname all) identity :=
      List.foldl_append
    rw [hstep]
    exact grouped_add ih identity

end Gempba.Telemetry
