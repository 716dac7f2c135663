import Gempba.Utils.Tree
import Mathlib.Data.Nat.Digits.Lemmas
import Mathlib.Data.Nat.Log
import Mathlib.Tactic.Ring

/-!
# The initial topology

The ranks below a node are found by their residues: node `p` at depth `d`
gets those `q` with `q - 1` congruent to `p - 1` modulo `b ^ d`. Powers and
logarithms are exact and no integer overflows.
-/

namespace Gempba

set_option autoImplicit false

def getNextChild (child parent childrenPerNode depth : ℕ) : ℕ :=
  child * childrenPerNode ^ depth + parent

/-- The body of the inner loop; `build` is the recursive call at the next depth. -/
def addBranch {total : ℕ} (build : Fin total → Tree total → Except TreeError (Tree total))
    (b depth : ℕ) (parent : Fin total) (t : Tree total) (child : ℕ) :
    Except TreeError (Tree total) :=
  let nextChild := getNextChild child parent b depth
  if h : nextChild < total ∧ 0 < nextChild then do
    let t ← t.addNext parent nextChild
    build ⟨nextChild, h.1⟩ t
  else .ok t

/-- `build_topology` with the number of values left for `v_depth`. -/
def buildTopologyLevels (b total : ℕ) :
    ℕ → Fin total → ℕ → Tree total → Except TreeError (Tree total)
  | 0, _, _, t => .ok t
  | levels + 1, parent, depth, t => do
    let build := fun next t => buildTopologyLevels b total levels next (depth + 1) t
    let t ← (List.range' 1 (b - 1)).foldlM (addBranch build b depth parent) t
    build parent t

/-- `v_depth < log2(p_total)` holds as long as `2 ^ v_depth < p_total`. -/
def buildTopology (b total depthStart : ℕ) (parent : Fin total) (t : Tree total) :
    Except TreeError (Tree total) :=
  buildTopologyLevels b total (Nat.clog 2 total - depthStart) parent depthStart t

/-- One more than the rank below, without its most significant digit. -/
def parentRank (b q : ℕ) : ℕ := 1 + (q - 1) % b ^ Nat.log b (q - 1)

/-- The ranks that `levels` levels below node `p` at depth `d` attach. -/
def Below (b d p levels q : ℕ) : Prop :=
  p < q ∧ (q - 1) % b ^ d = p - 1 ∧ q - 1 < b ^ (d + levels)

/-- Those of them that are the child `c` of `p`, or below it. -/
def Branch (b d p levels c q : ℕ) : Prop :=
  0 < q ∧ (q - 1) % b ^ (d + 1) = c * b ^ d + (p - 1) ∧ q - 1 < b ^ (d + 1 + levels)

section Arithmetic

variable {b d p levels c q : ℕ}

theorem not_below_zero (hp : 1 ≤ p) : ¬ Below b d p 0 q := by
  rintro ⟨hlt, hmod, hbound⟩
  rw [Nat.add_zero] at hbound
  rw [Nat.mod_eq_of_lt hbound] at hmod
  omega

theorem mod_pow_succ_eq (r : ℕ) : r % b ^ (d + 1) = r / b ^ d % b * b ^ d + r % b ^ d := by
  rw [Nat.mod_pow_succ, Nat.mul_comm, Nat.add_comm]

theorem mul_add_lt (hpd : p - 1 < b ^ d) (hc : c < b) : c * b ^ d + (p - 1) < b ^ (d + 1) := by
  calc c * b ^ d + (p - 1) < c * b ^ d + b ^ d := by omega
    _ = (c + 1) * b ^ d := by ring
    _ ≤ b * b ^ d := Nat.mul_le_mul_right _ hc
    _ = b ^ (d + 1) := by ring

theorem branch_iff (hp : 1 ≤ p) (hpd : p - 1 < b ^ d) (hc : c < b) :
    Branch b d p levels c q ↔
      q = getNextChild c p b d ∨ Below b (d + 1) (getNextChild c p b d) levels q := by
  have hlt := mul_add_lt hpd hc
  have hpow : b ^ (d + 1) ≤ b ^ (d + 1 + levels) :=
    Nat.pow_le_pow_right (by omega) (by omega)
  constructor
  · rintro ⟨hq, hmod, hbound⟩
    have hle : (q - 1) % b ^ (d + 1) ≤ q - 1 := Nat.mod_le _ _
    by_cases heq : q = getNextChild c p b d
    · exact Or.inl heq
    · refine Or.inr ⟨?_, ?_, hbound⟩
      · unfold getNextChild at heq ⊢
        omega
      · unfold getNextChild
        omega
  · rintro (rfl | ⟨hlt', hmod, hbound⟩)
    · have hpred : getNextChild c p b d - 1 = c * b ^ d + (p - 1) := by
        unfold getNextChild
        omega
      refine ⟨by unfold getNextChild; omega, ?_, by omega⟩
      rw [hpred, Nat.mod_eq_of_lt hlt]
    · refine ⟨by omega, ?_, hbound⟩
      unfold getNextChild at hmod
      omega

/-- The ranks below a node fall into its branches and what remains for deeper levels. -/
theorem below_succ (hb : 2 ≤ b) (hp : 1 ≤ p) (hpd : p - 1 < b ^ d) :
    Below b d p (levels + 1) q ↔
      (∃ c ∈ List.range' 1 (b - 1), Branch b d p levels c q) ∨ Below b (d + 1) p levels q := by
  have hsplit := mod_pow_succ_eq (b := b) (d := d) (q - 1)
  have hdigit : (q - 1) / b ^ d % b < b := Nat.mod_lt _ (by omega)
  have hexp : d + (levels + 1) = d + 1 + levels := by omega
  constructor
  · rintro ⟨hlt, hmod, hbound⟩
    rw [hmod] at hsplit
    rw [hexp] at hbound
    obtain hzero | hpos := Nat.eq_zero_or_pos ((q - 1) / b ^ d % b)
    · rw [hzero] at hsplit
      exact Or.inr ⟨hlt, by omega, hbound⟩
    · refine Or.inl ⟨_, List.mem_range'_1.mpr ⟨hpos, by omega⟩, by omega, hsplit, hbound⟩
  · rintro (⟨c, hc, hq, hmod, hbound⟩ | ⟨hlt, hmod, hbound⟩)
    · have hc := List.mem_range'_1.mp hc
      have hpos : 0 < c * b ^ d := Nat.mul_pos (by omega) (Nat.pow_pos (by omega))
      have hle : (q - 1) % b ^ (d + 1) ≤ q - 1 := Nat.mod_le _ _
      refine ⟨by omega, ?_, hexp ▸ hbound⟩
      rw [← Nat.mod_mod_of_dvd (q - 1) (Nat.pow_dvd_pow b (Nat.le_succ d)), hmod,
        Nat.mul_add_mod', Nat.mod_eq_of_lt hpd]
    · refine ⟨hlt, ?_, hexp ▸ hbound⟩
      rw [← Nat.mod_mod_of_dvd (q - 1) (Nat.pow_dvd_pow b (Nat.le_succ d)), hmod,
        Nat.mod_eq_of_lt hpd]

theorem parentRank_getNextChild (hp : 1 ≤ p) (hpd : p - 1 < b ^ d) (hc : 1 ≤ c) (hcb : c < b) :
    parentRank b (getNextChild c p b d) = p := by
  have hpred : getNextChild c p b d - 1 = c * b ^ d + (p - 1) := by
    unfold getNextChild
    omega
  have hlow : b ^ d ≤ c * b ^ d := Nat.le_mul_of_pos_left _ hc
  have hlog : Nat.log b (c * b ^ d + (p - 1)) = d :=
    (Nat.log_eq_iff (Or.inr ⟨by omega, by omega⟩)).mpr ⟨by omega, mul_add_lt hpd hcb⟩
  rw [parentRank, hpred, hlog, Nat.mul_add_mod', Nat.mod_eq_of_lt hpd]
  omega

end Arithmetic

/-- Exactly the ranks of `S` have been attached, each below its parent rank. -/
structure Attached {total : ℕ} (b : ℕ) (S : ℕ → Prop) (F F' : Forest.Ordered (Fin total)) :
    Prop where
  inside : ∀ q : Fin total, S q → (F'.parent q).map Fin.val = some (parentRank b q)
  outside : ∀ q : Fin total, ¬ S q → F'.parent q = F.parent q

namespace Attached

variable {total b : ℕ} {S T : ℕ → Prop} {F F' F'' : Forest.Ordered (Fin total)}

theorem nothing (hS : ∀ q : Fin total, ¬ S q) : Attached b S F F :=
  ⟨fun q hq => absurd hq (hS q), fun _ _ => rfl⟩

theorem congr (h : Attached b S F F') (hST : ∀ q : Fin total, T q ↔ S q) : Attached b T F F' :=
  ⟨fun q hq => h.inside q ((hST q).mp hq), fun q hq => h.outside q fun hS => hq ((hST q).mpr hS)⟩

theorem trans (h : Attached b S F F') (h' : Attached b T F' F'') :
    Attached b (fun q => S q ∨ T q) F F'' := by
  refine ⟨fun q hq => ?_, fun q hq => ?_⟩
  · by_cases hT : T q
    · exact h'.inside q hT
    · rw [h'.outside q hT]
      exact h.inside q (hq.resolve_right hT)
  · rw [h'.outside q fun hT => hq (Or.inr hT), h.outside q fun hS => hq (Or.inl hS)]

theorem attach {p c : Fin total} (hc : F.parent c = none) (hp : parentRank b c = p) :
    Attached b (fun q => q = c) F (F.attach p c hc) := by
  refine ⟨fun q hq => ?_, fun q hq => ?_⟩
  · obtain rfl := Fin.ext hq
    simp [Forest.Ordered.attach, hp]
  · have hqc : q ≠ c := fun he => hq (congrArg Fin.val he)
    simp [Forest.Ordered.attach, Function.update_of_ne hqc]

end Attached

/-- What the recursive call promises for a node at depth `d`. -/
def Builds {total : ℕ} (build : Fin total → Tree total → Except TreeError (Tree total))
    (b d levels : ℕ) : Prop :=
  ∀ (p : Fin total) (t : Tree total) (F : Forest.Ordered (Fin total)), 1 ≤ p.val →
    p.val - 1 < b ^ d → t.Represents F →
    (∀ q : Fin total, Below b d p levels q → F.parent q = none) →
    ∃ t' F', build p t = .ok t' ∧ t'.Represents F' ∧ Attached b (Below b d p levels) F F'

section Build

variable {total b d levels : ℕ} {p : Fin total}
  {build : Fin total → Tree total → Except TreeError (Tree total)}

theorem addBranch_spec (hbuild : Builds build b (d + 1) levels) (hp : 1 ≤ p.val)
    (hpd : p.val - 1 < b ^ d) {c : ℕ} (hc : 1 ≤ c) (hcb : c < b) {t : Tree total}
    {F : Forest.Ordered (Fin total)} (ht : t.Represents F)
    (hfree : ∀ q : Fin total, Branch b d p levels c q → F.parent q = none) :
    ∃ t' F', addBranch build b d p t c = .ok t' ∧ t'.Represents F' ∧
      Attached b (Branch b d p levels c) F F' := by
  have hbranch : ∀ q, Branch b d p levels c q ↔ q = getNextChild c p b d ∨
      Below b (d + 1) (getNextChild c p b d) levels q := fun _ => branch_iff hp hpd hcb
  have hpos : 0 < getNextChild c p b d := by
    unfold getNextChild
    omega
  by_cases hlt : getNextChild c p b d < total
  · let next : Fin total := ⟨getNextChild c p b d, hlt⟩
    have horphan : F.parent next = none := hfree next ((hbranch _).mpr (Or.inl rfl))
    obtain ⟨t₁, hadd, ht₁⟩ := ht.addNext_eq p horphan
    have hattached := Attached.attach (b := b) horphan (parentRank_getNextChild hp hpd hc hcb)
    have hnext : next.val - 1 < b ^ (d + 1) := by
      have hbound := mul_add_lt hpd hcb
      simp only [next, getNextChild]
      omega
    obtain ⟨t', F', hrec, ht', hrest⟩ := hbuild next t₁ _ hpos hnext ht₁ fun q hq => by
      have hne : q.val ≠ next := Nat.ne_of_gt hq.1
      rw [hattached.outside q hne]
      exact hfree q ((hbranch _).mpr (Or.inr hq))
    refine ⟨t', F', ?_, ht', (hattached.trans hrest).congr fun q => hbranch q⟩
    rw [addBranch, dif_pos ⟨hlt, hpos⟩]
    simp only [next] at hadd hrec
    rw [hadd]
    exact hrec
  · refine ⟨t, F, by rw [addBranch, dif_neg fun h => hlt h.1], ht, .nothing fun q hq => hlt ?_⟩
    obtain he | hq := (hbranch q).mp hq
    · exact he ▸ q.isLt
    · exact hq.1.trans q.isLt

/-- Branches of different children have different residues, so each finds its ranks free. -/
theorem addBranches_spec (hbuild : Builds build b (d + 1) levels) (hp : 1 ≤ p.val)
    (hpd : p.val - 1 < b ^ d) {cs : List ℕ} (hcs : ∀ c ∈ cs, 1 ≤ c ∧ c < b) (hnodup : cs.Nodup)
    {t : Tree total} {F : Forest.Ordered (Fin total)} (ht : t.Represents F)
    (hfree : ∀ q : Fin total, (∃ c ∈ cs, Branch b d p levels c q) → F.parent q = none) :
    ∃ t' F', cs.foldlM (addBranch build b d p) t = .ok t' ∧ t'.Represents F' ∧
      Attached b (fun q => ∃ c ∈ cs, Branch b d p levels c q) F F' := by
  induction cs generalizing t F with
  | nil => exact ⟨t, F, rfl, ht, .nothing fun q hq => by simp at hq⟩
  | cons c cs ih =>
    obtain ⟨hc, hcb⟩ := hcs c (by simp)
    obtain ⟨hnew, hnodup⟩ := List.nodup_cons.mp hnodup
    obtain ⟨t₁, F₁, hfirst, ht₁, hattached⟩ := addBranch_spec hbuild hp hpd hc hcb ht
      fun q hq => hfree q ⟨c, by simp, hq⟩
    obtain ⟨t', F', hrest, ht', hothers⟩ := ih (fun x hx => hcs x (by simp [hx])) hnodup ht₁
      fun q ⟨x, hx, hq⟩ => by
        have hne : ¬ Branch b d p levels c q := fun hqc => by
          have hmul : x * b ^ d = c * b ^ d := by
            have hqx := hq.2.1
            rw [hqc.2.1] at hqx
            omega
          have hxc := Nat.eq_of_mul_eq_mul_right (Nat.pow_pos (by omega)) hmul
          exact hnew (hxc ▸ hx)
        rw [hattached.outside q hne]
        exact hfree q ⟨x, by simp [hx], hq⟩
    refine ⟨t', F', ?_, ht', (hattached.trans hothers).congr fun q => by simp⟩
    rw [List.foldlM_cons, hfirst]
    exact hrest

end Build

/-- Nothing is thrown, and exactly the ranks below the node are attached. -/
theorem buildTopologyLevels_spec {b total : ℕ} (hb : 2 ≤ b) (levels d : ℕ) :
    Builds (fun p t => buildTopologyLevels b total levels p d t) b d levels := by
  induction levels generalizing d with
  | zero => exact fun p t F hp _ ht _ => ⟨t, F, rfl, ht, .nothing fun q => not_below_zero hp⟩
  | succ levels ih =>
    intro p t F hp hpd ht hfree
    have hbelow : ∀ q, Below b d p (levels + 1) q ↔ (∃ c ∈ List.range' 1 (b - 1),
        Branch b d p levels c q) ∨ Below b (d + 1) p levels q := fun _ => below_succ hb hp hpd
    have hrange : ∀ c ∈ List.range' 1 (b - 1), 1 ≤ c ∧ c < b := fun c hc => by
      have := List.mem_range'_1.mp hc
      omega
    obtain ⟨t₁, F₁, hbranches, ht₁, hattached⟩ := addBranches_spec (ih (d + 1)) hp hpd
      hrange (List.nodup_range' ..) ht fun q hq => hfree q ((hbelow q).mpr (Or.inl hq))
    have hdeep : p.val - 1 < b ^ (d + 1) :=
      hpd.trans_le (Nat.pow_le_pow_right (by omega) (Nat.le_succ d))
    obtain ⟨t', F', hrest, ht', hothers⟩ := ih (d + 1) p t₁ F₁ hp hdeep ht₁ fun q hq => by
      have hne : ¬ ∃ c ∈ List.range' 1 (b - 1), Branch b d p levels c q := by
        rintro ⟨c, hc, hqc⟩
        have hpos : 0 < c * b ^ d :=
          Nat.mul_pos (by have := List.mem_range'_1.mp hc; omega) (Nat.pow_pos (by omega))
        have hmod := hqc.2.1
        rw [hq.2.1] at hmod
        omega
      rw [hattached.outside q hne]
      exact hfree q ((hbelow q).mpr (Or.inr hq))
    refine ⟨t', F', ?_, ht', (hattached.trans hothers).congr fun q => hbelow q⟩
    simp only [buildTopologyLevels]
    rw [hbranches]
    exact hrest

/-- Every rank from 2 on gets its parent, and no other one does. -/
theorem buildTopology_spec {b total : ℕ} (hb : 2 ≤ b) (hone : 1 < total) :
    ∃ t F, buildTopology b total 0 ⟨1, hone⟩ (.make total) = .ok t ∧ t.Represents F ∧
      ∀ q : Fin total, (F.parent q).map Fin.val =
        if 2 ≤ q.val then some (parentRank b q) else none := by
  obtain ⟨t, F, hbuild, ht, hattached⟩ := buildTopologyLevels_spec hb (Nat.clog 2 total) 0
    ⟨1, hone⟩ (.make total) .empty le_rfl (by simp) Tree.represents_make fun _ _ => rfl
  refine ⟨t, F, hbuild, ht, fun q => ?_⟩
  split
  · rename_i hq
    refine hattached.inside q ⟨hq, by simp [Nat.mod_one], ?_⟩
    have hpow : total ≤ 2 ^ Nat.clog 2 total := Nat.le_pow_clog (by omega) _
    have hle : 2 ^ Nat.clog 2 total ≤ b ^ Nat.clog 2 total := Nat.pow_le_pow_left hb _
    rw [Nat.zero_add]
    omega
  · rename_i hq
    rw [hattached.outside q fun hqb => hq hqb.1]
    rfl

theorem parentRank_lt {b q : ℕ} (hb : 2 ≤ b) (hq : 2 ≤ q) : parentRank b q < q := by
  have hmod : (q - 1) % b ^ Nat.log b (q - 1) < b ^ Nat.log b (q - 1) :=
    Nat.mod_lt _ (Nat.pow_pos (by omega))
  have hlog : b ^ Nat.log b (q - 1) ≤ q - 1 := Nat.pow_log_le_self b (by omega)
  unfold parentRank
  omega

theorem parentRank_eq_digits {b q : ℕ} (hb : 2 ≤ b) (hq : 2 ≤ q) :
    parentRank b q = 1 + Nat.ofDigits b (Nat.digits b (q - 1)).dropLast := by
  have hpred : q - 1 ≠ 0 := by omega
  rw [parentRank, List.dropLast_eq_take, Nat.length_digits b (q - 1) hb hpred, Nat.add_sub_cancel,
    Nat.self_mod_pow_eq_ofDigits_take _ _ hb]

/-- Following the parents from any worker ends in rank 1. -/
theorem reaches_first {b total : ℕ} (hb : 2 ≤ b) (hone : 1 < total)
    {parent : Fin total → Option (Fin total)} (hparent : ∀ q : Fin total,
      (parent q).map Fin.val = if 2 ≤ q.val then some (parentRank b q) else none)
    (q : Fin total) (hq : 1 ≤ q.val) :
    Relation.ReflTransGen (Forest.Child parent) q ⟨1, hone⟩ := by
  induction hr : q.val using Nat.strong_induction_on generalizing q with
  | _ r ih =>
    subst hr
    obtain hfirst | hlater := Nat.eq_or_lt_of_le hq
    · obtain rfl : q = ⟨1, hone⟩ := Fin.ext hfirst.symm
      exact .refl
    · have hlater : 2 ≤ q.val := hlater
      have hval := hparent q
      rw [if_pos hlater] at hval
      obtain ⟨p, hp, hpval⟩ := Option.map_eq_some_iff.mp hval
      have hlt : p.val < q.val := by
        rw [hpval]
        exact parentRank_lt hb hlater
      have hpos : 1 ≤ p.val := by
        rw [hpval, parentRank]
        exact Nat.le_add_right 1 _
      exact .head hp (ih p.val hlt p hpos rfl)

/-- The initial topology is one tree below rank 1 that covers every worker. -/
theorem initialTopology {b total : ℕ} (hb : 2 ≤ b) (hone : 1 < total) :
    ∃ t, buildTopology b total 0 ⟨1, hone⟩ (.make total) = .ok t ∧
      (∀ r : Fin total, (t r).parent.map Fin.val = if 2 ≤ r.val then
        some (1 + Nat.ofDigits b (Nat.digits b (r.val - 1)).dropLast) else none) ∧
      (∀ p, ∃ children, t.childrenOf p = some children ∧ children.Nodup ∧
        ∀ r, r ∈ children ↔ (t r).parent = some p) ∧
      (∀ r : Fin total, 1 ≤ r.val →
        Relation.ReflTransGen (Forest.Child fun q => (t q).parent) r ⟨1, hone⟩) ∧
      Forest.Acyclic fun q => (t q).parent := by
  obtain ⟨t, F, hbuild, ht, hparent⟩ := buildTopology_spec hb hone
  have hlinks : (fun q => (t q).parent) = F.parent := funext ht.parent
  refine ⟨t, hbuild, fun r => ?_, fun p => ?_, fun r hr => ?_, ?_⟩
  · rw [ht.parent, hparent]
    split
    · rename_i hr
      rw [parentRank_eq_digits hb hr]
    · rfl
  · refine ⟨_, ht.childrenOf_eq p, F.nodup p, fun r => ?_⟩
    rw [ht.parent, F.mem_children]
  · rw [hlinks]
    exact reaches_first hb hone hparent r hr
  · rw [hlinks]
    refine Forest.acyclic_of_lt Fin.val fun c p hcp => ?_
    have hval := hparent c
    rw [hcp, Option.map_some] at hval
    split at hval
    · rename_i hc
      rw [Option.some.inj hval]
      exact parentRank_lt hb hc
    · cases hval

theorem initialTopology_seven :
    ∃ t, buildTopology 3 7 0 ⟨1, by decide⟩ (.make 7) = .ok t ∧
      (t 4).parent.map Fin.val = some (1 + Nat.ofDigits 3 (Nat.digits 3 3).dropLast) := by
  obtain ⟨t, hbuild, hparent, -⟩ := @initialTopology 3 7 (by decide) (by decide)
  exact ⟨t, hbuild, hparent 4⟩

end Gempba
