import Gempba.Telemetry.TopologyContributions

/-!
# The merge of the layouts

Each layout is found in the buffer at its offset, and goes to the node of the
host that it was probed on.
-/

namespace Gempba.Telemetry

set_option autoImplicit false

variable {worldSize : UInt32}

/-! The buffer of the layouts. -/

section Buffer

variable {index : Bytes → Option ℕ} {blobs : List Bytes}

def lengthOf (blob : Bytes) : ℤ := blob.length

def ofOffset (offset : ℕ) : ℤ := offset

theorem displacements_eq (total : ℕ) (h : total + blobs.flatten.length < 2 ^ 31) :
    displacements total (blobs.map lengthOf) =
      ((Blocks.offsets total blobs).map ofOffset, ((total + blobs.flatten.length : ℕ) : ℤ)) := by
  induction blobs generalizing total with
  | nil => rfl
  | cons blob blobs ih =>
    rw [List.flatten_cons, List.length_append] at h
    have hwrap : SignedInt.wrap (total + lengthOf blob) = (total + blob.length : ℕ) :=
      SignedInt.wrap_of_lt (by omega)
    rw [List.map_cons, displacements, hwrap, ih (total + blob.length) (by omega), Blocks.offsets,
      List.map_cons, List.flatten_cons, List.length_append, Nat.add_assoc]
    rfl

theorem receive_eq (blobs : List Bytes) :
    receive (blobs.flatten.length : ℕ) ((Blocks.offsets 0 blobs).map ofOffset) blobs =
      blobs.flatten := by
  have hoffsets : ((Blocks.offsets 0 blobs).map ofOffset).map Int.toNat =
      Blocks.offsets 0 blobs := by
    rw [List.map_map]
    exact List.map_id _
  rw [receive, hoffsets, Int.toNat_natCast]
  exact Blocks.foldl_place [] _ List.length_replicate

/-- A rank that has contributed something is merged, the others are passed over. -/
def mergeBlob (index : Bytes → Option ℕ) (nodes : List TopologyNode) (blob : Bytes) :
    List TopologyNode :=
  if blob = [] then nodes else mergeLayout index nodes blob

theorem mergeLayouts_eq (done : Bytes) (nodes : List TopologyNode) :
    mergeLayouts index (done ++ blobs.flatten)
      ((blobs.map lengthOf).zip ((Blocks.offsets done.length blobs).map ofOffset)) nodes =
      blobs.foldl (mergeBlob index) nodes := by
  induction blobs generalizing done nodes with
  | nil => rfl
  | cons blob blobs ih =>
    have hlength : done.length + blob.length = (done ++ blob).length := List.length_append.symm
    have hblock : ((done ++ (blob ++ blobs.flatten)).drop (ofOffset done.length).toNat).take
        (lengthOf blob).toNat = blob := Blocks.read_block done blob blobs.flatten
    rw [List.flatten_cons, List.map_cons, Blocks.offsets, List.map_cons, List.zip_cons_cons,
      mergeLayouts, hblock, hlength, ← List.append_assoc, ih, ih, List.foldl_cons, mergeBlob]
    obtain rfl | hne := eq_or_ne blob []
    · have hzero : lengthOf [] ≤ 0 := le_refl 0
      rw [if_pos rfl, if_pos hzero]
    · have hpos : ¬ lengthOf blob ≤ 0 := by
        have hlt := List.length_pos_iff.mpr hne
        rw [lengthOf]
        omega
      rw [if_neg hne, if_neg hpos]

end Buffer

section Merge

variable {hosts : Fin worldSize.toNat → Host} {node : TopologyNode} {r : Fin worldSize.toNat}
  {i : ℕ}

theorem length_flatten_contributed (hosts : Fin worldSize.toNat → Host) :
    (List.ofFn (contributed hosts)).flatten.length = ∑ r, (contributed hosts r).length := by
  rw [List.length_flatten, List.map_ofFn, List.sum_ofFn]
  rfl

theorem contributed_lt (hsizes : ∑ r, (contributed hosts r).length < 2 ^ 31)
    (r : Fin worldSize.toNat) : (contributed hosts r).length < 2 ^ 31 :=
  Nat.lt_of_le_of_lt
    (Finset.single_le_sum (fun q _ => Nat.zero_le (contributed hosts q).length)
      (Finset.mem_univ r)) hsizes

/-- Below the range of `int` the layouts are merged one after the other. -/
theorem agreedSnapshot_nodes (hsizes : ∑ r, (contributed hosts r).length < 2 ^ 31) :
    (agreedSnapshot hosts).nodes =
      (List.ofFn (contributed hosts)).foldl (mergeBlob (worldGroups hosts).index)
        (worldGroups hosts).nodes := by
  have hlengths : List.ofFn (contributedSize hosts) =
      (List.ofFn (contributed hosts)).map lengthOf := by
    rw [List.map_ofFn]
    apply congrArg List.ofFn
    funext r
    have hlt := contributed_lt hsizes r
    exact SignedInt.wrap_of_lt (by omega)
  rw [← length_flatten_contributed] at hsizes
  have hdisplacements := displacements_eq 0 (by rwa [Nat.zero_add])
  rw [Nat.zero_add, Nat.cast_zero] at hdisplacements
  have hreceive := receive_eq (List.ofFn (contributed hosts))
  rw [agreedSnapshot, mergedSnapshot, hlengths, hdisplacements]
  simp only [hreceive]
  exact mergeLayouts_eq [] (worldGroups hosts).nodes

theorem probed_hostname (hosts : Fin worldSize.toNat → Host) (r : Fin worldSize.toNat) :
    (probed hosts r).cut.hostname = hostOf hosts r := by
  have hlength : (hostOf hosts r).length < 64 := CharArray.length_text_lt _
  have hhost : (probed hosts r).hostname = hostOf hosts r := fillLocalHostFields_hostname _ _
  change (probed hosts r).hostname.take 0xFFFF = _
  rw [hhost, List.take_of_length_le (by omega)]

/-- The layout of the lowest rank goes to the node of its host. -/
theorem mergeBlob_lowest (hsizes : ∑ r, (contributed hosts r).length < 2 ^ 31)
    (hr : IsLowest hosts r) (hindex : (worldGroups hosts).index (hostOf hosts r) = some i)
    (nodes : List TopologyNode) :
    mergeBlob (worldGroups hosts).index nodes (contributed hosts r) =
      nodes.modify i (setLayout (probed hosts r).cut) := by
  have hlt := contributed_lt hsizes r
  rw [contributed_of_lowest hr] at hlt ⊢
  obtain ⟨c, hdecoded, hok⟩ := deserialize_serialize (probed hosts r) .blank
    fun socket hsocket => by
      have hle := cpuIds_le_serialize hsocket
      omega
  have hhost : (TopologyNode.blank.withTopology (probed hosts r).cut).hostname = hostOf hosts r :=
    probed_hostname hosts r
  rw [mergeBlob, if_neg (serialize_ne_nil _), mergeLayout, hdecoded]
  simp only [hok, Bool.true_eq_false, if_false, hhost, hindex]
  rfl

def mergeRanks (hosts : Fin worldSize.toNat → Host) (ranks : List (Fin worldSize.toNat)) :
    List TopologyNode :=
  ranks.foldl (fun nodes r => mergeBlob (worldGroups hosts).index nodes (contributed hosts r))
    (worldGroups hosts).nodes

theorem mergeRanks_append (ranks : List (Fin worldSize.toNat)) (r : Fin worldSize.toNat) :
    mergeRanks hosts (ranks ++ [r]) =
      mergeBlob (worldGroups hosts).index (mergeRanks hosts ranks) (contributed hosts r) :=
  List.foldl_append

theorem length_mergeBlob {index : Bytes → Option ℕ} (nodes : List TopologyNode) (blob : Bytes) :
    (mergeBlob index nodes blob).length = nodes.length := by
  rw [mergeBlob]
  split
  · rfl
  · rw [mergeLayout]
    split
    · rfl
    · split
      · rfl
      · split
        · rfl
        · exact List.length_modify _ _ _

theorem length_mergeRanks (ranks : List (Fin worldSize.toNat)) :
    (mergeRanks hosts ranks).length = (worldGroups hosts).nodes.length := by
  induction ranks using List.reverseRecOn with
  | nil => rfl
  | append_singleton ranks r ih => rw [mergeRanks_append, length_mergeBlob, ih]

/-- A node changes when its own sentinel is merged, and not before or after. -/
theorem mergeRanks_node (hsizes : ∑ r, (contributed hosts r).length < 2 ^ 31)
    (hnode : (worldGroups hosts).nodes[i]? = some node) (hr : IsLowest hosts r)
    (hhost : hostOf hosts r = node.hostname) (ranks : List (Fin worldSize.toNat)) :
    (mergeRanks hosts ranks)[i]? =
      some (if r ∈ ranks then setLayout (probed hosts r).cut node else node) := by
  induction ranks using List.reverseRecOn with
  | nil => exact hnode
  | append_singleton ranks q ih =>
    have hmem : r ∈ ranks ++ [q] ↔ r ∈ ranks ∨ r = q := by
      rw [List.mem_append, List.mem_singleton]
    rw [mergeRanks_append]
    obtain hq | hq := Classical.em (IsLowest hosts q)
    · obtain ⟨j, other, hindex, hother, hotherHost⟩ := exists_node hosts q
      rw [mergeBlob_lowest hsizes hq hindex, List.getElem?_modify, ih, Option.map_eq_map,
        Option.map_some]
      obtain rfl | hne := eq_or_ne r q
      · have hij : j = i := by
          have hi := ((worldGroups_grouped hosts).index_iff _ i).mpr ⟨node, hnode, hhost.symm⟩
          rw [hindex] at hi
          exact Option.some.inj hi
        rw [if_pos (hmem.mpr (Or.inr rfl)), if_pos hij]
        split <;> rfl
      · have hij : j ≠ i := by
          rintro rfl
          rw [hother] at hnode
          cases hnode
          exact hne (hr.unique hq (hhost.trans hotherHost))
        have hsame : r ∈ ranks ++ [q] ↔ r ∈ ranks := by
          rw [hmem, or_iff_left hne]
        rw [if_neg hij]
        simp only [hsame]
    · have hne : r ≠ q := by
        rintro rfl
        exact hq hr
      have hsame : r ∈ ranks ++ [q] ↔ r ∈ ranks := by
        rw [hmem, or_iff_left hne]
      rw [contributed_of_not_lowest hq, mergeBlob, if_pos rfl, ih]
      simp only [hsame]

theorem agreedSnapshot_mergeRanks (hsizes : ∑ r, (contributed hosts r).length < 2 ^ 31) :
    (agreedSnapshot hosts).nodes = mergeRanks hosts (List.finRange worldSize.toNat) := by
  rw [agreedSnapshot_nodes hsizes, List.ofFn_eq_map, List.foldl_map]
  rfl

/-- A group gets the layout of its lowest rank. -/
theorem agreed_group (hsizes : ∑ r, (contributed hosts r).length < 2 ^ 31)
    (hgroup : (worldGroups hosts).nodes[i]? = some node) :
    ∃ r, hostOf hosts r = node.hostname ∧ IsLowest hosts r ∧ node.sentinelWorkerId = rankId r ∧
      (agreedSnapshot hosts).nodes[i]? = some (setLayout (probed hosts r).cut node) := by
  obtain ⟨r, hhost, hr, hsentinel⟩ := sentinel_lowest (List.mem_of_getElem? hgroup)
  refine ⟨r, hhost, hr, hsentinel, ?_⟩
  rw [agreedSnapshot_mergeRanks hsizes, mergeRanks_node hsizes hgroup hr hhost,
    if_pos (List.mem_finRange r)]

/-- The nodes of the snapshot are the groups. -/
theorem agreed_node (hsizes : ∑ r, (contributed hosts r).length < 2 ^ 31)
    (hnode : (agreedSnapshot hosts).nodes[i]? = some node) :
    ∃ group r, (worldGroups hosts).nodes[i]? = some group ∧ hostOf hosts r = group.hostname ∧
      IsLowest hosts r ∧ group.sentinelWorkerId = rankId r ∧
      node = setLayout (probed hosts r).cut group := by
  obtain ⟨hi, _⟩ := List.getElem?_eq_some_iff.mp hnode
  rw [agreedSnapshot_mergeRanks hsizes, length_mergeRanks] at hi
  have hgroup := List.getElem?_eq_getElem hi
  obtain ⟨r, hhost, hr, hsentinel, hmerged⟩ := agreed_group hsizes hgroup
  rw [hnode] at hmerged
  exact ⟨_, r, hgroup, hhost, hr, hsentinel, Option.some.inj hmerged⟩

/-- The index that was found from the identities finds the nodes of the snapshot. -/
theorem agreed_index (hsizes : ∑ r, (contributed hosts r).length < 2 ^ 31)
    (hnode : (agreedSnapshot hosts).nodes[i]? = some node) :
    (worldGroups hosts).index node.hostname = some i := by
  obtain ⟨group, r, hgroup, _, _, _, rfl⟩ := agreed_node hsizes hnode
  exact ((worldGroups_grouped hosts).index_iff _ i).mpr ⟨group, hgroup, rfl⟩

end Merge

end Gempba.Telemetry
