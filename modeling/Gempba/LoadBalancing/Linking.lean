import Gempba.Library.Machine
import Gempba.LoadBalancing.Balancer

/-!
# Parents and children under any sequence of links

The program may hang a node under another one at any time. A link is kept on
both sides, and nothing takes a node out of the list of its former parent.
-/

namespace Gempba

set_option autoImplicit false

open Transition

/-- The throw of `add_child`, and those of the members it calls. -/
inductive LinkThrow where
  | nullOrSelfChild
  | member (e : Throw)
  deriving DecidableEq, Repr

namespace Balancer

def addChild (b : Balancer) (p : NodeId) (child : Option NodeId) : Except LinkThrow Balancer :=
  match child with
  | none => .error .nullOrSelfChild
  | some n =>
    if n = p then .error .nullOrSelfChild
    else do
      let b ← if (b.node n).parent ≠ some p then (b.setParent n (some p)).mapError .member
        else .ok b
      return b.linkChild p n

/-- A node that the program may name. -/
def Created (b : Balancer) (n : NodeId) : Prop := 0 < n ∧ n ≤ b.uniqueIdCounter

instance (b : Balancer) (n : NodeId) : Decidable (b.Created n) :=
  inferInstanceAs (Decidable (_ ∧ _))

inductive LinkOperation where
  | create (t : ThreadId) (parent : Option NodeId) (core : NodeCore Call)
  | setParent (n p : NodeId)
  | addChild (p n : NodeId)
  | prune (n : NodeId)

/-- Nodes are created without links, and pruned without children. -/
def linking : Machine Balancer LinkOperation LinkThrow where
  initial b := ∃ answers worker, b = { answers, schedulerWorker := worker }
  step
    | .create t parent core, b =>
      if ∀ p ∈ parent, b.Created p then
        .ofExcept (((b.create t parent core.unlinked).map Prod.snd).mapError .member)
      else .blocked
    | .setParent n p, b =>
      if b.Created n ∧ b.Created p then .ofExcept ((b.setParent n (some p)).mapError .member)
      else .blocked
    | .addChild p n, b =>
      if b.Created n ∧ b.Created p then .ofExcept (b.addChild p (some n)) else .blocked
    | .prune n, b =>
      if b.Created n ∧ (b.node n).children = [] then .ofExcept ((b.prune n).mapError .member)
      else .blocked

/-- A node is in the list of its parent, once, and in no other list. -/
structure Linked (b : Balancer) : Prop where
  once : ∀ n p, (b.node n).parent = some p → (b.node p).children.count n = 1
  only : ∀ n p q, (b.node n).parent = some p → q ≠ p → n ∉ (b.node q).children
  orphan : ∀ n, (b.node n).parent = none → ∀ q, n ∉ (b.node q).children

/-- No list names a node that has not been created. -/
structure Grounded (b : Balancer) : Prop where
  unborn : ∀ m, b.uniqueIdCounter < m → (b.node m).parent = none ∧ (b.node m).children = []
  member : ∀ m, ∀ n ∈ (b.node m).children, n ≤ b.uniqueIdCounter

/-- All that hanging `n` under `p` changes of the links. -/
structure Attached (b b' : Balancer) (n p : NodeId) : Prop where
  parent : ∀ m, (b'.node m).parent = if m = n then some p else (b.node m).parent
  children : ∀ m, (b'.node m).children =
    if m = p ∧ n ∉ (b.node p).children then (b.node p).children ++ [n] else (b.node m).children
  counter : b'.uniqueIdCounter = b.uniqueIdCounter

/-- One more node, without links. -/
structure Allocated (b b' : Balancer) : Prop where
  counter : b'.uniqueIdCounter = b.uniqueIdCounter + 1
  fresh : (b'.node (b.uniqueIdCounter + 1)).parent = none ∧
    (b'.node (b.uniqueIdCounter + 1)).children = []
  parent : ∀ m, m ≠ b.uniqueIdCounter + 1 → (b'.node m).parent = (b.node m).parent
  children : ∀ m, m ≠ b.uniqueIdCounter + 1 → (b'.node m).children = (b.node m).children

variable {b b' : Balancer} {n p : NodeId} {t : ThreadId} {parent : Option NodeId}
  {core : NodeCore Call}

/-! ## What the members do to the links -/

theorem setParent_cases (h : b.setParent n (some p) = .ok b') :
    n ≠ p ∧ ((b.node n).parent = some p ∧ b' = b ∨ b.Attached b' n p) := by
  rw [setParent] at h
  split at h
  · cases h
  · split at h
    · cases h
    · rename_i hself
      have hne : n ≠ p := by
        rintro rfl
        exact hself rfl
      split at h
      · cases h
      · split at h
        · rename_i hparent
          cases h
          exact ⟨hne, Or.inl ⟨hparent, rfl⟩⟩
        · cases h
          refine ⟨hne, Or.inr ⟨fun m => ?_, fun m => ?_, rfl⟩⟩
          · obtain rfl | hmn := eq_or_ne m n
            · simp [linkChild, modify, hne]
            · obtain rfl | hmp := eq_or_ne m p
              · simp [linkChild, modify, hmn]
              · simp [linkChild, modify, hmn, hmp]
          · obtain rfl | hmn := eq_or_ne m n
            · simp [linkChild, modify, hne]
            · obtain rfl | hmp := eq_or_ne m p
              · by_cases hmem : n ∈ (b.node m).children
                · simp [linkChild, modify, hmn, hmem]
                · simp [linkChild, modify, hmn, hmem]
              · simp [linkChild, modify, hmn, hmp]

theorem linkChild_attached (hparent : (b.node n).parent = some p) :
    b.Attached (b.linkChild p n) n p := by
  refine ⟨fun m => ?_, fun m => ?_, rfl⟩
  · obtain rfl | hmn := eq_or_ne m n
    · obtain rfl | hmp := eq_or_ne m p
      · simp [linkChild, modify, hparent]
      · simp [linkChild, modify, hmp, hparent]
    · obtain rfl | hmp := eq_or_ne m p
      · simp [linkChild, modify, hmn]
      · simp [linkChild, modify, hmn, hmp]
  · obtain rfl | hmp := eq_or_ne m p
    · by_cases hmem : n ∈ (b.node m).children
      · simp [linkChild, modify, hmem]
      · simp [linkChild, modify, hmem]
    · simp [linkChild, modify, hmp]

theorem Attached.again (h : b.Attached b' n p) : b.Attached (b'.linkChild p n) n p := by
  have hmem : n ∈ (b'.node p).children := by
    rw [h.children]
    split
    · exact List.mem_append_right _ (List.mem_singleton_self n)
    · rename_i hnew
      exact not_not.mp fun hfree => hnew ⟨rfl, hfree⟩
  have hsame : b'.linkChild p n = b' := by
    have hnode : ({ b'.node p with children := if n ∈ (b'.node p).children then
        (b'.node p).children else (b'.node p).children ++ [n] } : NodeCore Call) = b'.node p := by
      rw [if_pos hmem]
    rw [linkChild, modify, hnode, Function.update_eq_self]
  rwa [hsame]

theorem addChild_cases (h : b.addChild p (some n) = .ok b') :
    n ≠ p ∧ b.Attached b' n p := by
  rw [addChild] at h
  simp only at h
  split at h
  · cases h
  · rename_i hnp
    refine ⟨hnp, ?_⟩
    split at h
    · rename_i hparent
      cases hset : b.setParent n (some p) with
      | error e =>
        rw [hset] at h
        cases h
      | ok b₁ =>
        rw [hset] at h
        cases h
        obtain ⟨-, ⟨hsame, -⟩ | hattached⟩ := setParent_cases hset
        · exact absurd hsame hparent
        · exact hattached.again
    · rename_i hparent
      cases h
      exact linkChild_attached (not_not.mp hparent)

theorem create_cases (h : b.create t parent core.unlinked = .ok (n, b')) :
    (parent = none ∧ b.Allocated b') ∨ ∃ p b₁, parent = some p ∧ b.Allocated b₁ ∧
      b₁.Attached b' (b.uniqueIdCounter + 1) p := by
  cases parent with
  | none =>
    cases h
    refine Or.inl ⟨rfl, rfl, ?_, fun m hm => ?_, fun m hm => ?_⟩
    · simp [modify, setRoot, NodeCore.unlinked]
    · simp [modify, setRoot, hm]
    · simp [modify, setRoot, hm]
  | some p =>
    obtain ⟨b'', hset, heq⟩ := map_ok h
    cases heq
    refine Or.inr ⟨p, _, rfl, ?_, ((setParent_cases hset).2.resolve_left ?_)⟩
    · refine ⟨rfl, ?_, fun m hm => ?_, fun m hm => ?_⟩
      · simp [NodeCore.unlinked]
      · simp [hm]
      · simp [hm]
    · rintro ⟨hparent, -⟩
      simp [NodeCore.unlinked] at hparent

/-! ## What a step keeps -/

namespace Grounded

theorem attached (hb : b.Grounded) (h : b.Attached b' n p) (hn : b.Created n)
    (hp : b.Created p) : b'.Grounded := by
  refine ⟨fun m hm => ?_, fun m k hk => ?_⟩
  · rw [h.counter] at hm
    have hmn : m ≠ n := by
      rintro rfl
      exact Nat.not_lt.mpr hn.2 hm
    have hmp : ¬ (m = p ∧ n ∉ (b.node p).children) := by
      rintro ⟨rfl, -⟩
      exact Nat.not_lt.mpr hp.2 hm
    rw [h.parent, h.children, if_neg hmn, if_neg hmp]
    exact hb.unborn m hm
  · rw [h.counter]
    rw [h.children] at hk
    split at hk
    · obtain hk | hk := List.mem_append.mp hk
      · exact hb.member p k hk
      · rw [List.mem_singleton.mp hk]
        exact hn.2
    · exact hb.member m k hk

theorem allocated (hb : b.Grounded) (h : b.Allocated b') : b'.Grounded := by
  refine ⟨fun m hm => ?_, fun m k hk => ?_⟩
  · rw [h.counter] at hm
    have hne : m ≠ b.uniqueIdCounter + 1 := Nat.ne_of_gt hm
    rw [h.parent m hne, h.children m hne]
    exact hb.unborn m (Nat.lt_of_succ_lt hm)
  · rw [h.counter]
    obtain rfl | hne := eq_or_ne m (b.uniqueIdCounter + 1)
    · rw [h.fresh.2] at hk
      exact absurd hk List.not_mem_nil
    · rw [h.children m hne] at hk
      exact Nat.le_succ_of_le (hb.member m k hk)

theorem pruned (hb : b.Grounded) (n : NodeId) : (b.pruned n).Grounded := by
  refine ⟨fun m hm => ?_, fun m k hk => ?_⟩
  · obtain ⟨hparent, hchildren⟩ := hb.unborn m hm
    obtain rfl | hmn := eq_or_ne m n
    · rw [pruned_node_self]
      exact ⟨rfl, rfl⟩
    · obtain hp | hp := eq_or_ne (b.node n).parent (some m)
      · rw [pruned_node_parent hp hmn, hchildren]
        exact ⟨hparent, rfl⟩
      · rw [pruned_node_of_ne hmn hp]
        exact ⟨hparent, hchildren⟩
  · obtain rfl | hmn := eq_or_ne m n
    · rw [pruned_node_self] at hk
      exact absurd hk List.not_mem_nil
    · obtain hp | hp := eq_or_ne (b.node n).parent (some m)
      · rw [pruned_node_parent hp hmn] at hk
        exact hb.member m k (List.mem_filter.mp hk).1
      · rw [pruned_node_of_ne hmn hp] at hk
        exact hb.member m k hk

end Grounded

namespace Linked

/-- A link is consistent exactly when it is the first one of the node, or the one it has. -/
theorem attached_iff (hb : b.Linked) (h : b.Attached b' n p) :
    b'.Linked ↔ (b.node n).parent = none ∨ (b.node n).parent = some p := by
  constructor
  · intro hlinked
    cases hparent : (b.node n).parent with
    | none => exact Or.inl rfl
    | some q =>
      refine Or.inr (congrArg some ?_)
      by_contra hqp
      -- the former parent still has the node in its list
      have hstays : n ∈ (b'.node q).children := by
        have hq : ¬ (q = p ∧ n ∉ (b.node p).children) := fun he => hqp he.1
        rw [h.children, if_neg hq]
        apply List.count_pos_iff.mp
        rw [hb.once n q hparent]
        exact Nat.one_pos
      have hnew : (b'.node n).parent = some p := by rw [h.parent, if_pos rfl]
      exact hlinked.only n p q hnew hqp hstays
  · intro hparent
    have hparents : ∀ m q, (b'.node m).parent = some q → m ≠ n → (b.node m).parent = some q := by
      intro m q hm hmn
      rwa [h.parent, if_neg hmn] at hm
    have hcount : ∀ m q, m ≠ n →
        (b'.node q).children.count m = (b.node q).children.count m := by
      intro m q hmn
      rw [h.children]
      split
      · rename_i hq
        obtain ⟨rfl, -⟩ := hq
        rw [List.count_append, List.count_singleton, beq_false_of_ne (Ne.symm hmn), Nat.add_eq_left]
        rfl
      · rfl
    have hmem : ∀ m q, m ≠ n → (m ∈ (b'.node q).children ↔ m ∈ (b.node q).children) := by
      intro m q hmn
      rw [← List.count_pos_iff, ← List.count_pos_iff, hcount m q hmn]
    -- the list of `p` has the node once, and no other list has it
    have hself : (b'.node p).children.count n = 1 ∧ ∀ q, q ≠ p → n ∉ (b'.node q).children := by
      constructor
      · rw [h.children]
        obtain hparent | hparent := hparent
        · have hfree := hb.orphan n hparent p
          rw [if_pos ⟨rfl, hfree⟩, List.count_append, List.count_eq_zero.mpr hfree,
            List.count_singleton_self]
        · have hin : n ∈ (b.node p).children := by
            apply List.count_pos_iff.mp
            rw [hb.once n p hparent]
            exact Nat.one_pos
          rw [if_neg fun he => he.2 hin, hb.once n p hparent]
      · intro q hq
        rw [h.children, if_neg fun he => hq he.1]
        obtain hparent | hparent := hparent
        · exact hb.orphan n hparent q
        · exact hb.only n p q hparent hq
    refine ⟨fun m q hm => ?_, fun m q r hm hr => ?_, fun m hm q => ?_⟩
    · obtain rfl | hmn := eq_or_ne m n
      · rw [h.parent, if_pos rfl] at hm
        cases hm
        exact hself.1
      · rw [hcount m q hmn]
        exact hb.once m q (hparents m q hm hmn)
    · obtain rfl | hmn := eq_or_ne m n
      · rw [h.parent, if_pos rfl] at hm
        cases hm
        exact hself.2 r hr
      · rw [hmem m r hmn]
        exact hb.only m q r (hparents m q hm hmn) hr
    · obtain rfl | hmn := eq_or_ne m n
      · rw [h.parent, if_pos rfl] at hm
        cases hm
      · rw [hmem m q hmn]
        rw [h.parent, if_neg hmn] at hm
        exact hb.orphan m hm q

theorem allocated (hb : b.Linked) (hground : b.Grounded) (h : b.Allocated b') : b'.Linked := by
  have hunborn : ∀ q, b.uniqueIdCounter + 1 ∉ (b.node q).children := fun q hq =>
    Nat.not_succ_le_self _ (hground.member q _ hq)
  have hchildren : ∀ m q, m ∈ (b'.node q).children → m ∈ (b.node q).children := by
    intro m q hm
    obtain rfl | hq := eq_or_ne q (b.uniqueIdCounter + 1)
    · rw [h.fresh.2] at hm
      exact absurd hm List.not_mem_nil
    · rwa [h.children q hq] at hm
  have hparents : ∀ m q, (b'.node m).parent = some q → (b.node m).parent = some q := by
    intro m q hm
    obtain rfl | hmn := eq_or_ne m (b.uniqueIdCounter + 1)
    · rw [h.fresh.1] at hm
      cases hm
    · rwa [h.parent m hmn] at hm
  refine ⟨fun m q hm => ?_, fun m q r hm hr hmem => ?_, fun m hm q hmem => ?_⟩
  · have hq : q ≠ b.uniqueIdCounter + 1 := by
      rintro rfl
      have honce := hb.once m _ (hparents m _ hm)
      rw [(hground.unborn _ (Nat.lt_succ_self _)).2] at honce
      cases honce
    rw [h.children q hq]
    exact hb.once m q (hparents m q hm)
  · exact hb.only m q r (hparents m q hm) hr (hchildren m r hmem)
  · obtain rfl | hmn := eq_or_ne m (b.uniqueIdCounter + 1)
    · exact hunborn q (hchildren _ q hmem)
    · rw [h.parent m hmn] at hm
      exact hb.orphan m hm q (hchildren m q hmem)

/-- A node without children takes nothing but itself out of the tree. -/
theorem pruned (hb : b.Linked) (hn : (b.node n).children = []) : (b.pruned n).Linked := by
  have hparent : ∀ m q, ((b.pruned n).node m).parent = some q →
      m ≠ n ∧ (b.node m).parent = some q := by
    intro m q hm
    obtain rfl | hmn := eq_or_ne m n
    · rw [pruned_node_self] at hm
      cases hm
    · obtain hp | hp := eq_or_ne (b.node n).parent (some m)
      · rw [pruned_node_parent hp hmn] at hm
        exact ⟨hmn, hm⟩
      · rw [pruned_node_of_ne hmn hp] at hm
        exact ⟨hmn, hm⟩
  have hcount : ∀ m q, m ≠ n → q ≠ n →
      ((b.pruned n).node q).children.count m = (b.node q).children.count m := by
    intro m q hmn hqn
    obtain hp | hp := eq_or_ne (b.node n).parent (some q)
    · rw [pruned_node_parent hp hqn]
      exact List.count_filter (bne_iff_ne.mpr hmn)
    · rw [pruned_node_of_ne hqn hp]
  have hmem : ∀ m q, m ∈ ((b.pruned n).node q).children → m ≠ n ∧ m ∈ (b.node q).children := by
    intro m q hm
    obtain rfl | hqn := eq_or_ne q n
    · rw [pruned_node_self] at hm
      exact absurd hm List.not_mem_nil
    · obtain hp | hp := eq_or_ne (b.node n).parent (some q)
      · rw [pruned_node_parent hp hqn] at hm
        obtain ⟨hm, hne⟩ := List.mem_filter.mp hm
        exact ⟨bne_iff_ne.mp hne, hm⟩
      · rw [pruned_node_of_ne hqn hp] at hm
        refine ⟨?_, hm⟩
        rintro rfl
        cases hparent' : (b.node m).parent with
        | none => exact hb.orphan m hparent' q hm
        | some r =>
          refine hb.only m r q hparent' ?_ hm
          rintro rfl
          exact hp hparent'
  refine ⟨fun m q hm => ?_, fun m q r hm hr hin => ?_, fun m hm q hin => ?_⟩
  · obtain ⟨hmn, hold⟩ := hparent m q hm
    have hqn : q ≠ n := by
      rintro rfl
      have honce := hb.once m q hold
      rw [hn] at honce
      cases honce
    rw [hcount m q hmn hqn]
    exact hb.once m q hold
  · exact hb.only m q r (hparent m q hm).2 hr (hmem m r hin).2
  · obtain ⟨hmn, hin⟩ := hmem m q hin
    have hold : (b.node m).parent = none := by
      obtain hp | hp := eq_or_ne (b.node n).parent (some m)
      · rwa [pruned_node_parent hp hmn] at hm
      · rwa [pruned_node_of_ne hmn hp] at hm
    exact hb.orphan m hold q hin

end Linked

/-- A node that gets a parent has none yet, or that one. -/
def LinksOnce (b : Balancer) : LinkOperation → Prop
  | .setParent n p => (b.node n).parent = none ∨ (b.node n).parent = some p
  | .addChild p n => (b.node n).parent = none ∨ (b.node n).parent = some p
  | _ => True

theorem linking_grounded {op : LinkOperation} (hb : b.Grounded)
    (h : linking.step op b = .moved b') : b'.Grounded := by
  cases op with
  | create t parent core =>
    simp only [linking] at h
    split at h
    · rename_i hparent
      obtain ⟨⟨n, b''⟩, hcreate, heq⟩ := map_ok (mapError_ok (Outcome.ofExcept_eq_moved.mp h))
      cases heq
      obtain ⟨-, hgrown⟩ | ⟨p, b₁, rfl, hgrown, hattached⟩ := create_cases hcreate
      · exact hb.allocated hgrown
      · have hp := hparent p rfl
        refine (hb.allocated hgrown).attached hattached ?_ ?_
        · rw [Created, hgrown.counter]
          exact ⟨Nat.succ_pos _, Nat.le_refl _⟩
        · rw [Created, hgrown.counter]
          exact ⟨hp.1, Nat.le_succ_of_le hp.2⟩
    · cases h
  | setParent n p =>
    simp only [linking] at h
    split at h
    · rename_i hcreated
      have hset := mapError_ok (Outcome.ofExcept_eq_moved.mp h)
      obtain ⟨-, rfl⟩ | hattached := (setParent_cases hset).2
      · exact hb
      · exact hb.attached hattached hcreated.1 hcreated.2
    · cases h
  | addChild p n =>
    simp only [linking] at h
    split at h
    · rename_i hcreated
      exact hb.attached (addChild_cases (Outcome.ofExcept_eq_moved.mp h)).2 hcreated.1 hcreated.2
    · cases h
  | prune n =>
    simp only [linking] at h
    split at h
    · have hprune := mapError_ok (Outcome.ofExcept_eq_moved.mp h)
      rw [prune_eq] at hprune
      cases hprune
      exact hb.pruned n
    · cases h

theorem linking_linked_iff {op : LinkOperation} (hground : b.Grounded) (hb : b.Linked)
    (h : linking.step op b = .moved b') : b'.Linked ↔ b.LinksOnce op := by
  cases op with
  | create t parent core =>
    refine iff_of_true ?_ trivial
    simp only [linking] at h
    split at h
    · obtain ⟨⟨n, b''⟩, hcreate, heq⟩ := map_ok (mapError_ok (Outcome.ofExcept_eq_moved.mp h))
      cases heq
      obtain ⟨-, hgrown⟩ | ⟨p, b₁, -, hgrown, hattached⟩ := create_cases hcreate
      · exact hb.allocated hground hgrown
      · exact ((hb.allocated hground hgrown).attached_iff hattached).mpr (Or.inl hgrown.fresh.1)
    · cases h
  | setParent n p =>
    simp only [linking] at h
    split at h
    · have hset := mapError_ok (Outcome.ofExcept_eq_moved.mp h)
      obtain ⟨hparent, rfl⟩ | hattached := (setParent_cases hset).2
      · exact iff_of_true hb (Or.inr hparent)
      · exact hb.attached_iff hattached
    · cases h
  | addChild p n =>
    simp only [linking] at h
    split at h
    · exact hb.attached_iff (addChild_cases (Outcome.ofExcept_eq_moved.mp h)).2
    · cases h
  | prune n =>
    refine iff_of_true ?_ trivial
    simp only [linking] at h
    split at h
    · rename_i hchildless
      have hprune := mapError_ok (Outcome.ofExcept_eq_moved.mp h)
      rw [prune_eq] at hprune
      cases hprune
      exact hb.pruned hchildless.2
    · cases h

theorem linking_initial (h : linking.initial b) : b.Grounded ∧ b.Linked := by
  obtain ⟨answers, worker, rfl⟩ := h
  have hnone : ∀ m, (({ answers, schedulerWorker := worker } : Balancer).node m).parent = none :=
    fun _ => rfl
  have hnil : ∀ m, (({ answers, schedulerWorker := worker } : Balancer).node m).children = [] :=
    fun _ => rfl
  refine ⟨⟨fun m _ => ⟨hnone m, hnil m⟩, fun m n hn => ?_⟩, ⟨fun n p hp => ?_, fun n p q hp => ?_,
    fun n _ q hn => ?_⟩⟩
  · rw [hnil m] at hn
    exact absurd hn List.not_mem_nil
  · rw [hnone n] at hp
    cases hp
  · rw [hnone n] at hp
    cases hp
  · rw [hnil q] at hn
    exact absurd hn List.not_mem_nil

/-- Parents and children agree in every state of a run exactly when no step of it hangs a node
under a second parent. -/
theorem links_consistent_iff {ops : List LinkOperation} {b b' : Balancer}
    (hinitial : linking.initial b) (hrun : linking.run ops b = some b') :
    linking.Stays Linked ops b ↔ linking.Obeys LinksOnce ops b := by
  obtain ⟨hground, hlinked⟩ := linking_initial hinitial
  exact Machine.stays_iff_obeys (fun s op t hs hst => linking_grounded hs hst)
    (fun s op t hground hs hst => linking_linked_iff hground hs hst) hground hlinked hrun

/-- The third node is created under the first one and then hung under the second one. -/
def reparented : List LinkOperation :=
  [.create 0 none .dummy, .create 0 none .dummy,
    .create 0 (some 1) (.explicitly (.mk (.createExplicitNode true) .forward []) true),
    .setParent 3 2]

/-- A node hung under one parent and told so twice. -/
def relinked : List LinkOperation :=
  [.create 0 none .dummy,
    .create 0 (some 1) (.explicitly (.mk (.createExplicitNode true) .forward []) true),
    .addChild 1 2, .setParent 2 1]

def noNodes : Balancer := { answers := fun _ => false }

theorem initial_noNodes : linking.initial noNodes := ⟨_, false, rfl⟩

theorem reparented_runs : (linking.run reparented noNodes).isSome = true := rfl

theorem relinked_runs : (linking.run relinked noNodes).isSome = true := rfl

theorem relinked_obeys : linking.Obeys LinksOnce relinked noNodes := by
  refine ⟨trivial, fun t ht => ?_⟩
  cases ht
  refine ⟨trivial, fun t ht => ?_⟩
  cases ht
  refine ⟨Or.inr rfl, fun t ht => ?_⟩
  cases ht
  exact ⟨Or.inr rfl, fun t ht => by cases ht; trivial⟩

theorem links_consistent_iff_relinked : linking.Stays Linked relinked noNodes :=
  (links_consistent_iff initial_noNodes (Option.some_get relinked_runs).symm).mpr relinked_obeys

/-- The node is in the lists of both of its parents. -/
theorem reparented_in_two_lists :
    let b := (linking.run reparented noNodes).get reparented_runs
    linking.run reparented noNodes = some b ∧ (b.node 3).parent = some 2 ∧
      3 ∈ (b.node 1).children ∧ 3 ∈ (b.node 2).children ∧ ¬ b.Linked := by
  intro b
  have hparent : (b.node 3).parent = some 2 := rfl
  have hformer : 3 ∈ (b.node 1).children := List.mem_singleton_self 3
  have hlatter : 3 ∈ (b.node 2).children := List.mem_singleton_self 3
  refine ⟨(Option.some_get reparented_runs).symm, hparent, hformer, hlatter, fun hlinked => ?_⟩
  exact hlinked.only 3 2 1 hparent (by decide) hformer

end Balancer

end Gempba
