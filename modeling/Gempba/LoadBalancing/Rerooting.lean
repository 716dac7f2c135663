import Mathlib.Logic.Relation
import Gempba.LoadBalancing.Linking
import Gempba.LoadBalancing.Resubmission

/-!
# Moving the root of a thread down

The nodes of a thread form trees, and a slot of the thread holds the root of
one of them. Whatever the program creates, submits and forwards comes down to
the members that reach the links; a root that is corrected afterwards passes
nodes with a single child, and leaves nothing else behind.
-/

namespace Gempba

set_option autoImplicit false

namespace Balancer

/-- The links, the roots and the counter have stayed. -/
structure Settles (b b' : Balancer) : Prop where
  links : ∀ m, (b'.node m).links = (b.node m).links
  roots : b'.roots = b.roots
  counter : b'.uniqueIdCounter = b.uniqueIdCounter

/-- What the members that reach the links make of the nodes, in any order. Every tree stays on
one thread. -/
inductive Built : Balancer → Prop
  | initial (answers : ℕ → Bool) (worker : Bool) : Built { answers, schedulerWorker := worker }
  | create {b b' : Balancer} {n : NodeId} (h : Built b) (t : ThreadId) (parent : Option NodeId)
      (core : NodeCore Call) (hCore : core.unlinked = core)
      (hParent : ∀ p, parent = some p → b.Created p ∧ (b.node p).threadId = t)
      (hOk : b.create t parent core = .ok (n, b')) : Built b'
  | prune {b b' : Balancer} (h : Built b) (n : NodeId) (hOk : b.prune n = .ok b') : Built b'
  | correct {b b' : Balancer} (h : Built b) (n : NodeId) (hOk : b.tryCorrectRoot n = .ok b') :
      Built b'
  | settle {b b' : Balancer} (h : Built b) (hSettles : b.Settles b') : Built b'

/-- What holds of the links of every thread. -/
structure WellRooted (b : Balancer) : Prop where
  nodup : ∀ m, (b.node m).children.Nodup
  child : ∀ m, ∀ n ∈ (b.node m).children, (b.node n).parent = some m ∧ m < n ∧
    (b.node n).threadId = (b.node m).threadId
  parent : ∀ n p, (b.node n).parent = some p →
    n ≤ b.uniqueIdCounter ∧ (b.node n).root = some (b.node n).threadId
  slot : ∀ t r, b.roots t = some r →
    b.Created r ∧ (b.node r).parent = none ∧ (b.node r).threadId = t
  started : ∀ n, b.Created n → (b.roots (b.node n).threadId).isSome
  root : ∀ n t, (b.node n).root = some t → t = (b.node n).threadId

/-- Down the lists of children. -/
abbrev Below (b : Balancer) : NodeId → NodeId → Prop :=
  Relation.ReflTransGen fun p n => n ∈ (b.node p).children

/-- Up the parents. -/
abbrev Climbs (b : Balancer) : NodeId → NodeId → Prop :=
  Relation.ReflTransGen fun n p => (b.node n).parent = some p

/-- Down a chain of nodes that have a single child each. -/
inductive Passes (b : Balancer) : NodeId → List NodeId → NodeId → Prop
  | here (r : NodeId) : Passes b r [] r
  | down {r y x : NodeId} {passed : List NodeId} (h : (b.node r).children = [y])
      (hs : Passes b y passed x) : Passes b r (r :: passed) x

/-- All that a creation on `t` changes of the links. -/
structure Adds (b b' : Balancer) (t : ThreadId) (parent : Option NodeId) : Prop where
  counter : b'.uniqueIdCounter = b.uniqueIdCounter + 1
  new : (b'.node (b.uniqueIdCounter + 1)).links = ⟨some t, parent, [], t⟩
  old : ∀ m, m ≠ b.uniqueIdCounter + 1 → (b'.node m).links = { (b.node m).links with
    children := if parent = some m then (b.node m).children ++ [b.uniqueIdCounter + 1]
      else (b.node m).children }
  roots : b'.roots =
    if parent = none then Function.update b.roots t (some (b.uniqueIdCounter + 1)) else b.roots

variable {b b' : Balancer} {n m p r x y : NodeId} {t : ThreadId} {parent : Option NodeId}
  {passed : List NodeId}

namespace Settles

variable (h : b.Settles b')

include h

theorem root_eq (m : NodeId) : (b'.node m).root = (b.node m).root :=
  congrArg NodeCore.Links.root (h.links m)

theorem parent_eq (m : NodeId) : (b'.node m).parent = (b.node m).parent :=
  congrArg NodeCore.Links.parent (h.links m)

theorem children_eq (m : NodeId) : (b'.node m).children = (b.node m).children :=
  congrArg NodeCore.Links.children (h.links m)

theorem threadId_eq (m : NodeId) : (b'.node m).threadId = (b.node m).threadId :=
  congrArg NodeCore.Links.threadId (h.links m)

end Settles

theorem threadId_pruned : ((b.pruned n).node m).threadId = (b.node m).threadId :=
  pruned_cases (P := fun m c => c.threadId = (b.node m).threadId) rfl (fun _ _ _ => rfl)
    (fun _ _ _ => rfl) m

theorem root_pruned (hm : m ≠ n) : ((b.pruned n).node m).root = (b.node m).root := by
  obtain hp | hp := eq_or_ne (b.node n).parent (some m)
  · rw [pruned_node_parent hp hm]
  · rw [pruned_node_of_ne hm hp]

namespace WellRooted

theorem initial (answers : ℕ → Bool) (worker : Bool) :
    WellRooted { answers, schedulerWorker := worker } :=
  ⟨fun _ => List.nodup_nil, (by rintro _ _ ⟨⟩), (by rintro _ _ ⟨⟩), (by rintro _ _ ⟨⟩),
    fun _ hn => absurd hn.2 (Nat.not_le_of_gt hn.1), (by rintro _ _ ⟨⟩)⟩

theorem settle (h : b.WellRooted) (hSettles : b.Settles b') : b'.WellRooted := by
  have hRoot := hSettles.root_eq
  have hParent := hSettles.parent_eq
  have hChildren := hSettles.children_eq
  have hThread := hSettles.threadId_eq
  have hRoots := hSettles.roots
  have hCounter := hSettles.counter
  refine ⟨fun m => ?_, fun m n hn => ?_, fun n p hp => ?_, fun t r hr => ?_, fun n hn => ?_,
    fun n t ht => ?_⟩
  · rw [hChildren]
    exact h.nodup m
  · rw [hChildren] at hn
    rw [hParent, hThread, hThread]
    exact h.child m n hn
  · rw [hParent] at hp
    rw [hCounter, hRoot, hThread]
    exact h.parent n p hp
  · rw [hRoots] at hr
    rw [Created, hCounter, hParent, hThread]
    exact h.slot t r hr
  · rw [Created, hCounter] at hn
    rw [hRoots, hThread]
    exact h.started n hn
  · rw [hRoot] at ht
    rw [hThread]
    exact h.root n t ht

theorem parent_eq (h : b.WellRooted) (hn : n ∈ (b.node m).children) :
    (b.node n).parent = some m :=
  (h.child m n hn).1

theorem not_above (h : b.WellRooted) (hBelow : b.Below m n) : m ≤ n := by
  induction hBelow with
  | refl => exact Nat.le_refl _
  | tail _ hChild ih => exact Nat.le_of_lt (Nat.lt_of_le_of_lt ih (h.child _ _ hChild).2.1)

theorem threadId_below (h : b.WellRooted) (hBelow : b.Below m n) :
    (b.node n).threadId = (b.node m).threadId := by
  induction hBelow with
  | refl => rfl
  | tail _ hChild ih => exact (h.child _ _ hChild).2.2.trans ih

theorem getRoot_eq (h : b.WellRooted) (hSlot : b.roots (b.node n).threadId = some r)
    (hRoot : (b.node n).root ≠ none) : b.getRoot n = some r := by
  obtain ⟨t, ht⟩ := Option.ne_none_iff_exists'.mp hRoot
  rw [getRoot, ht]
  dsimp only
  rw [h.root n t ht]
  exact hSlot

theorem root_ne_none (h : b.WellRooted) (hBelow : b.Below m n) (hne : n ≠ m) :
    (b.node n).root ≠ none := by
  obtain rfl | ⟨p, -, hChild⟩ := hBelow.cases_tail
  · exact absurd rfl hne
  · rw [(h.parent n p (h.parent_eq hChild)).2]
    rintro ⟨⟩

theorem climbs (h : b.WellRooted) (hBelow : b.Below m n) : b.Climbs n m := by
  induction hBelow with
  | refl => exact .refl
  | tail _ hChild ih => exact .head (h.parent_eq hChild) ih

theorem pruned (h : b.WellRooted) (n : NodeId) : (b.pruned n).WellRooted := by
  refine ⟨fun m => ?_, fun m x hx => ?_, fun x p hp => ?_, fun t r hr => ?_, fun x hx => ?_,
    fun x t ht => ?_⟩
  · obtain rfl | hm := eq_or_ne m n
    · rw [pruned_node_self]
      exact List.nodup_nil
    · obtain hp | hp := eq_or_ne (b.node n).parent (some m)
      · rw [pruned_node_parent hp hm]
        exact (h.nodup m).filter _
      · rw [pruned_node_of_ne hm hp]
        exact h.nodup m
  · obtain ⟨-, hMem, hne⟩ := Consistent.mem_children_pruned hx
    obtain ⟨hParent, hLess, hSame⟩ := h.child m x hMem
    have hxn : x ≠ n := by
      rintro rfl
      exact hne hParent rfl
    rw [Consistent.parent_pruned hxn, threadId_pruned, threadId_pruned]
    exact ⟨hParent, hLess, hSame⟩
  · have hxn : x ≠ n := by
      rintro rfl
      rw [pruned_node_self] at hp
      cases hp
    rw [Consistent.parent_pruned hxn] at hp
    rw [root_pruned hxn, threadId_pruned]
    exact h.parent x p hp
  · obtain ⟨hCreated, hParent, hSame⟩ := h.slot t r hr
    refine ⟨hCreated, ?_, threadId_pruned.trans hSame⟩
    obtain rfl | hrn := eq_or_ne r n
    · rw [pruned_node_self]
    · rw [Consistent.parent_pruned hrn]
      exact hParent
  · rw [threadId_pruned]
    exact h.started x hx
  · rw [threadId_pruned]
    obtain rfl | hxn := eq_or_ne x n
    · rw [pruned_node_self] at ht
      cases ht
    · rw [root_pruned hxn] at ht
      exact h.root x t ht

theorem unborn (h : b.WellRooted) (m : NodeId) : b.uniqueIdCounter + 1 ∉ (b.node m).children :=
  fun hm => Nat.not_succ_le_self _ (h.parent _ m (h.parent_eq hm)).1

theorem adds_of_create (h : b.WellRooted) {core : NodeCore Call} (hCore : core.unlinked = core)
    (hParent : ∀ p, parent = some p → b.Created p ∧ (b.node p).threadId = t)
    (hOk : b.create t parent core = .ok (n, b')) : b.Adds b' t parent := by
  cases parent with
  | none =>
    cases hOk
    refine ⟨rfl, ?_, fun m hm => ?_, rfl⟩
    · rw [← hCore]
      simp [NodeCore.links, NodeCore.unlinked, modify, setRoot, rootSlot]
    · simp [NodeCore.links, modify, setRoot, hm]
  | some p =>
    obtain ⟨hCreated, hOwn⟩ := hParent p rfl
    obtain ⟨b₁, hSet, hEq⟩ := map_ok hOk
    cases hEq
    have hpn : p ≠ b.uniqueIdCounter + 1 := Nat.ne_of_lt (Nat.lt_succ_of_le hCreated.2)
    have hNode : Function.update b.node (b.uniqueIdCounter + 1) { core with threadId := t }
        (b.uniqueIdCounter + 1) = { core with threadId := t } := Function.update_self ..
    have hOrphan : core.parent = none := by
      rw [← hCore]
      rfl
    have hChildless : core.children = [] := by
      rw [← hCore]
      rfl
    have hNodeP : Function.update b.node (b.uniqueIdCounter + 1) { core with threadId := t } p =
        b.node p := Function.update_of_ne hpn ..
    cases hDummy : core.isDummy with
    | true =>
      rw [setParent, if_pos ⟨(congrArg NodeCore.isDummy hNode).trans hDummy, by simp⟩] at hSet
      cases hSet
    | false =>
      rw [setParent_some (t := t) ((congrArg NodeCore.isDummy hNode).trans hDummy) hpn.symm
        ((congrArg NodeCore.children hNode).trans hChildless)
        ((congrArg NodeCore.parent hNode).trans hOrphan)
        (fun hMem => h.unborn p ((congrArg NodeCore.children hNodeP) ▸ hMem))
        ((congrArg NodeCore.threadId hNodeP).trans hOwn) (hOwn ▸ h.started p hCreated)] at hSet
      cases hSet
      refine ⟨rfl, ?_, fun m hm => ?_, rfl⟩
      · simp [NodeCore.links, hpn.symm, hChildless]
      · obtain rfl | hmp := eq_or_ne m p
        · simp [NodeCore.links, hm]
        · simp [NodeCore.links, hm, hmp, hmp.symm]

theorem adds (h : b.WellRooted) (hAdds : b.Adds b' t parent)
    (hParent : ∀ p, parent = some p → b.Created p ∧ (b.node p).threadId = t) :
    b'.WellRooted := by
  have hSame : ∀ m, m ≠ b.uniqueIdCounter + 1 → (b'.node m).root = (b.node m).root ∧
      (b'.node m).parent = (b.node m).parent ∧ (b'.node m).threadId = (b.node m).threadId ∧
      (b'.node m).children = if parent = some m then (b.node m).children ++ [b.uniqueIdCounter + 1]
        else (b.node m).children := by
    intro m hm
    have hLinks := hAdds.old m hm
    exact ⟨congrArg NodeCore.Links.root hLinks, congrArg NodeCore.Links.parent hLinks,
      congrArg NodeCore.Links.threadId hLinks, congrArg NodeCore.Links.children hLinks⟩
  have hRoot : (b'.node (b.uniqueIdCounter + 1)).root = some t :=
    congrArg NodeCore.Links.root hAdds.new
  have hUp : (b'.node (b.uniqueIdCounter + 1)).parent = parent :=
    congrArg NodeCore.Links.parent hAdds.new
  have hThread : (b'.node (b.uniqueIdCounter + 1)).threadId = t :=
    congrArg NodeCore.Links.threadId hAdds.new
  have hChildren : (b'.node (b.uniqueIdCounter + 1)).children = [] :=
    congrArg NodeCore.Links.children hAdds.new
  refine ⟨fun m => ?_, fun m x hx => ?_, fun x p hp => ?_, fun u r hr => ?_, fun x hx => ?_,
    fun x u hu => ?_⟩
  · obtain rfl | hm := eq_or_ne m (b.uniqueIdCounter + 1)
    · rw [hChildren]
      exact List.nodup_nil
    · rw [(hSame m hm).2.2.2]
      split
      · rw [← List.concat_eq_append]
        exact (h.nodup m).concat (h.unborn m)
      · exact h.nodup m
  · have hm : m ≠ b.uniqueIdCounter + 1 := by
      rintro rfl
      rw [hChildren] at hx
      cases hx
    obtain ⟨-, -, hThreadM, hChildrenM⟩ := hSame m hm
    rw [hChildrenM] at hx
    have hCases : x ∈ (b.node m).children ∨ parent = some m ∧ x = b.uniqueIdCounter + 1 := by
      split at hx
      · rename_i hpm
        obtain hx | hx := List.mem_append.mp hx
        · exact .inl hx
        · exact .inr ⟨hpm, List.mem_singleton.mp hx⟩
      · exact .inl hx
    obtain hx | ⟨hpm, rfl⟩ := hCases
    · obtain ⟨hParentX, hLess, hThreadX⟩ := h.child m x hx
      have hx : x ≠ b.uniqueIdCounter + 1 := by
        rintro rfl
        exact Nat.not_succ_le_self _ (h.parent _ m hParentX).1
      obtain ⟨-, hUpX, hThreadX', -⟩ := hSame x hx
      rw [hUpX, hThreadX', hThreadM]
      exact ⟨hParentX, hLess, hThreadX⟩
    · obtain ⟨hCreated, hOwn⟩ := hParent m hpm
      rw [hUp, hThread, hThreadM, hOwn]
      exact ⟨hpm, Nat.lt_succ_of_le hCreated.2, rfl⟩
  · rw [hAdds.counter]
    obtain rfl | hx := eq_or_ne x (b.uniqueIdCounter + 1)
    · rw [hRoot, hThread]
      exact ⟨Nat.le_refl _, rfl⟩
    · obtain ⟨hRootX, hUpX, hThreadX, -⟩ := hSame x hx
      rw [hUpX] at hp
      rw [hRootX, hThreadX]
      exact ⟨Nat.le_succ_of_le (h.parent x p hp).1, (h.parent x p hp).2⟩
  · have hOld : b.roots u = some r → b'.Created r ∧ (b'.node r).parent = none ∧
        (b'.node r).threadId = u := by
      intro hr
      obtain ⟨hCreated, hUpR, hThreadR⟩ := h.slot u r hr
      obtain ⟨-, hUpR', hThreadR', -⟩ := hSame r (Nat.ne_of_lt (Nat.lt_succ_of_le hCreated.2))
      rw [Created, hAdds.counter, hUpR', hThreadR']
      exact ⟨⟨hCreated.1, Nat.le_succ_of_le hCreated.2⟩, hUpR, hThreadR⟩
    rw [hAdds.roots] at hr
    split at hr
    · rename_i hNone
      obtain rfl | hut := eq_or_ne u t
      · rw [Function.update_self] at hr
        cases hr
        rw [Created, hAdds.counter, hUp, hThread]
        exact ⟨⟨Nat.succ_pos _, Nat.le_refl _⟩, hNone, rfl⟩
      · rw [Function.update_of_ne hut] at hr
        exact hOld hr
    · exact hOld hr
  · rw [Created, hAdds.counter] at hx
    rw [hAdds.roots]
    obtain rfl | hne := eq_or_ne x (b.uniqueIdCounter + 1)
    · rw [hThread]
      split
      · rw [Function.update_self]
        rfl
      · rename_i hSome
        obtain ⟨p, hp⟩ := Option.ne_none_iff_exists'.mp hSome
        obtain ⟨hCreated, hOwn⟩ := hParent p hp
        rw [← hOwn]
        exact h.started p hCreated
    · obtain ⟨-, -, hThreadX, -⟩ := hSame x hne
      have hStarted := h.started x ⟨hx.1, Nat.le_of_lt_succ (Nat.lt_of_le_of_ne hx.2 hne)⟩
      rw [hThreadX]
      split
      · obtain ht | ht := eq_or_ne (b.node x).threadId t
        · rw [ht, Function.update_self]
          rfl
        · rw [Function.update_of_ne ht]
          exact hStarted
      · exact hStarted
  · obtain rfl | hx := eq_or_ne x (b.uniqueIdCounter + 1)
    · rw [hRoot] at hu
      rw [hThread]
      exact (Option.some.inj hu).symm
    · obtain ⟨hRootX, -, hThreadX, -⟩ := hSame x hx
      rw [hRootX] at hu
      rw [hThreadX]
      exact h.root x u hu

theorem created (h : b.WellRooted) {core : NodeCore Call} (hCore : core.unlinked = core)
    (hParent : ∀ p, parent = some p → b.Created p ∧ (b.node p).threadId = t)
    (hOk : b.create t parent core = .ok (n, b')) : b'.WellRooted :=
  h.adds (adds_of_create h hCore hParent hOk) hParent

end WellRooted

/-! ## What the loop does -/

theorem rooted_node (b : Balancer) (y m : NodeId) : (b.rooted y).node m =
    if m = y then { b.node y with parent := none } else b.node m := by
  obtain rfl | hm := eq_or_ne m y
  · rw [if_pos rfl]
    exact modify_node_self _
  · rw [if_neg hm]
    exact modify_node_of_ne _ hm

theorem rooted_pruned_node (hOrphan : (b.node r).parent = none) (hyr : y ≠ r) (m : NodeId) :
    ((b.rooted y).pruned r).node m =
      if m = r then { b.node r with root := none, parent := none, children := [] }
      else if m = y then { b.node y with parent := none }
      else b.node m := by
  have hNode : (b.rooted y).node r = b.node r := by
    rw [rooted_node, if_neg hyr.symm]
  obtain rfl | hm := eq_or_ne m r
  · rw [if_pos rfl, pruned_node_self, hNode]
  · rw [if_neg hm, pruned_node_of_ne hm (by rw [hNode, hOrphan]; rintro ⟨⟩), rooted_node]

theorem mem_of_single (h : (b.node r).children = [y]) : y ∈ (b.node r).children := by
  rw [h]
  exact List.mem_singleton_self y

namespace Passes

theorem reaches (h : b.Passes r passed x) : b.Below r x ∧ ∀ m ∈ passed, b.Below r m := by
  induction h with
  | here r => exact ⟨.refl, (by rintro _ ⟨⟩)⟩
  | down hChild _ ih =>
    have hStep := mem_of_single hChild
    refine ⟨.head hStep ih.1, fun m hm => ?_⟩
    obtain rfl | hm := List.mem_cons.mp hm
    · exact .refl
    · exact .head hStep (ih.2 m hm)

theorem lt (h : b.Passes r passed x) (hb : b.WellRooted) : ∀ m ∈ passed, m < x := by
  induction h with
  | here r => rintro _ ⟨⟩
  | @down r y x passed hChild hs ih =>
    intro m hm
    obtain rfl | hm := List.mem_cons.mp hm
    · exact Nat.lt_of_lt_of_le (hb.child _ _ (mem_of_single hChild)).2.1 (hb.not_above hs.reaches.1)
    · exact ih m hm

theorem start (h : b.Passes r passed x) : r ∈ passed ∨ r = x := by
  cases h with
  | here => exact .inr rfl
  | down hChild hs => exact .inl List.mem_cons_self

theorem congr (h : b.Passes r passed x)
    (hSame : ∀ m ∈ passed, (b'.node m).children = (b.node m).children) : b'.Passes r passed x := by
  induction h with
  | here r => exact .here r
  | down hChild _ ih =>
    exact .down ((hSame _ List.mem_cons_self).trans hChild)
      (ih fun m hm => hSame m (List.mem_cons_of_mem _ hm))

theorem split (h : b.Passes r passed x) (hm : b.Below r m) : m ∈ passed ∨ b.Below x m := by
  induction h with
  | here r => exact .inr hm
  | down hChild _ ih =>
    obtain rfl | ⟨z, hz, hm⟩ := hm.cases_head
    · exact .inl List.mem_cons_self
    · rw [hChild] at hz
      rw [List.mem_singleton.mp hz] at hm
      obtain hm | hm := ih hm
      · exact .inl (List.mem_cons_of_mem _ hm)
      · exact .inr hm

end Passes

/-- The root of `t` has passed these nodes on its way to `x`. -/
structure Lowered (b b' : Balancer) (t : ThreadId) (passed : List NodeId) (x : NodeId) : Prop where
  left : ∀ m ∈ passed, (b'.node m).children = [] ∧ (b'.node m).parent = none ∧
    (b'.node m).root = none
  kept : ∀ m, m ∉ passed → (b'.node m).children = (b.node m).children ∧
    (b'.node m).root = (b.node m).root ∧ (m ≠ x → (b'.node m).parent = (b.node m).parent)
  slot : b'.roots t = some x
  others : ∀ u, u ≠ t → b'.roots u = b.roots u
  counter : b'.uniqueIdCounter = b.uniqueIdCounter

theorem Lowered.refl (hSlot : b.roots t = some r) : b.Lowered b t [] r :=
  ⟨(by rintro _ ⟨⟩), fun _ _ => ⟨rfl, rfl, fun _ => rfl⟩, hSlot, fun _ _ => rfl, rfl⟩

theorem Lowered.trans {b'' : Balancer} (h : b.Lowered b' t [r] y)
    (h' : b'.Lowered b'' t passed x) (hr : r ∉ passed) (hx : x ≠ r) (hy : y ∈ passed ∨ y = x) :
    b.Lowered b'' t (r :: passed) x := by
  refine ⟨fun m hm => ?_, fun m hm => ?_, h'.slot,
    fun u hu => (h'.others u hu).trans (h.others u hu), h'.counter.trans h.counter⟩
  · obtain rfl | hm := List.mem_cons.mp hm
    · obtain ⟨hChildren, hParent, hRoot⟩ := h.left m (List.mem_singleton_self m)
      obtain ⟨hChildren', hRoot', hParent'⟩ := h'.kept m hr
      exact ⟨hChildren'.trans hChildren, (hParent' hx.symm).trans hParent, hRoot'.trans hRoot⟩
    · exact h'.left m hm
  · obtain ⟨hmr, hm⟩ := not_or.mp (fun hmem => hm (List.mem_cons.mpr hmem))
    obtain ⟨hChildren, hRoot, hParent⟩ := h.kept m fun hmem => hmr (List.mem_singleton.mp hmem)
    obtain ⟨hChildren', hRoot', hParent'⟩ := h'.kept m hm
    refine ⟨hChildren'.trans hChildren, hRoot'.trans hRoot, fun hmx => (hParent' hmx).trans ?_⟩
    apply hParent
    rintro rfl
    obtain hy | hy := hy
    · exact hm hy
    · exact hmx hy

theorem Lowered.below (h : b.Lowered b' t passed x) (hb : b.WellRooted)
    (hPassed : ∀ m ∈ passed, m < x) (hm : b.Below x m) : b'.Below x m := by
  induction hm with
  | refl => exact .refl
  | @tail p n hp hChild ih =>
    have hKept := h.kept p fun hMem => absurd (hb.not_above hp) (Nat.not_le_of_gt (hPassed p hMem))
    apply ih.tail
    rw [hKept.1]
    exact hChild

/-- Where the loop ends that starts at the root `r` of `t`: at `n` or at a node that does not
have a single child. -/
structure Rerooted (b b' : Balancer) (n : NodeId) (t : ThreadId) (r : NodeId)
    (passed : List NodeId) (x : NodeId) : Prop where
  passes : b.Passes r passed x
  lowered : b.Lowered b' t passed x
  relinked : b.Relinked b'
  start : n ∈ passed → n = r
  stop : x = n ∨ (b.node x).children.length ≠ 1

theorem Rerooted.stays (hSlot : b.roots t = some r) (hStop : (b.node r).children.length ≠ 1) :
    b.Rerooted b n t r [] r :=
  ⟨.here r, .refl hSlot, .refl b, (by rintro ⟨⟩), .inr hStop⟩

namespace WellRooted

variable (h : b.WellRooted)

include h

/-- One turn of the loop. -/
theorem lowered (hSlot : b.roots t = some r) (hChild : (b.node r).children = [y]) :
    ((b.rooted y).pruned r).WellRooted ∧ b.Lowered ((b.rooted y).pruned r) t [r] y := by
  obtain ⟨hUp, hLess, hThread⟩ := h.child r y (mem_of_single hChild)
  obtain ⟨hCreated, hOrphan, hOwn⟩ := h.slot t r hSlot
  have hOwnY : (b.node y).threadId = t := hThread.trans hOwn
  have hNode := rooted_pruned_node hOrphan (Nat.ne_of_gt hLess)
  have hThreads : ∀ m, (((b.rooted y).pruned r).node m).threadId = (b.node m).threadId := by
    intro m
    rw [hNode]
    split
    · rename_i hm
      rw [hm]
    · split
      · rename_i hm
        rw [hm]
      · rfl
  have hSlotY : ((b.rooted y).pruned r).roots t = some y := by
    change Function.update b.roots (b.node y).threadId (some y) t = some y
    rw [hOwnY, Function.update_self]
  have hSlots : ∀ u, u ≠ t → ((b.rooted y).pruned r).roots u = b.roots u := by
    intro u hu
    change Function.update b.roots (b.node y).threadId (some y) u = b.roots u
    rw [hOwnY, Function.update_of_ne hu]
  constructor
  · refine ⟨fun m => ?_, fun m x hx => ?_, fun x p hp => ?_, fun u q hq => ?_, fun x hx => ?_,
      fun x u hu => ?_⟩
    · rw [hNode]
      split
      · exact List.nodup_nil
      · split
        · exact h.nodup y
        · exact h.nodup m
    · rw [hNode m] at hx
      have hOld : m ≠ r ∧ x ∈ (b.node m).children := by
        split at hx
        · cases hx
        · rename_i hmr
          split at hx
          · rename_i hmy
            exact ⟨hmr, hmy ▸ hx⟩
          · exact ⟨hmr, hx⟩
      obtain ⟨hUpX, hLessX, hThreadX⟩ := h.child m x hOld.2
      have hxr : x ≠ r := by
        rintro rfl
        rw [hOrphan] at hUpX
        cases hUpX
      have hxy : x ≠ y := by
        rintro rfl
        exact hOld.1 (Option.some.inj (hUpX.symm.trans hUp))
      rw [hThreads, hThreads, hNode x, if_neg hxr, if_neg hxy]
      exact ⟨hUpX, hLessX, hThreadX⟩
    · rw [hThreads]
      rw [hNode x] at hp
      split at hp
      · cases hp
      · rename_i hxr
        split at hp
        · cases hp
        · rename_i hxy
          rw [hNode x, if_neg hxr, if_neg hxy]
          exact h.parent x p hp
    · rw [hThreads]
      obtain rfl | hu := eq_or_ne u t
      · rw [hSlotY] at hq
        cases hq
        refine ⟨⟨Nat.lt_of_le_of_lt (Nat.zero_le _) hLess, (h.parent y r hUp).1⟩, ?_, hOwnY⟩
        rw [hNode, if_neg (Nat.ne_of_gt hLess), if_pos rfl]
      · rw [hSlots u hu] at hq
        obtain ⟨hCreatedQ, hOrphanQ, hOwnQ⟩ := h.slot u q hq
        refine ⟨hCreatedQ, ?_, hOwnQ⟩
        rw [hNode]
        split
        · rfl
        · split
          · rfl
          · exact hOrphanQ
    · rw [hThreads]
      obtain ht | ht := eq_or_ne (b.node x).threadId t
      · rw [ht, hSlotY]
        rfl
      · rw [hSlots _ ht]
        exact h.started x hx
    · rw [hThreads]
      rw [hNode x] at hu
      split at hu
      · cases hu
      · split at hu
        · rename_i hxy
          exact hxy ▸ h.root y u hu
        · exact h.root x u hu
  · refine ⟨fun m hm => ?_, fun m hm => ?_, hSlotY, hSlots, rfl⟩
    · rw [List.mem_singleton.mp hm, hNode, if_pos rfl]
      exact ⟨rfl, rfl, rfl⟩
    · rw [hNode, if_neg (fun hmr => hm (List.mem_singleton.mpr hmr))]
      split
      · rename_i hmy
        rw [hmy]
        exact ⟨rfl, rfl, fun hne => absurd rfl hne⟩
      · exact ⟨rfl, rfl, fun _ => rfl⟩

theorem lowerRoot (n : NodeId) (hSlot : b.roots t = some r) {fuel : ℕ}
    (hFuel : b.uniqueIdCounter < r + fuel) :
    ∃ b' passed x, lowerRoot fuel r n b = .ok b' ∧ b'.WellRooted ∧
      b.Rerooted b' n t r passed x := by
  induction fuel generalizing b r with
  | zero => exact absurd (h.slot t r hSlot).1.2 (Nat.not_le_of_gt hFuel)
  | succ fuel ih =>
    have hStop : (b.node r).children.length ≠ 1 → ∃ b' passed x,
        Balancer.lowerRoot (fuel + 1) r n b = .ok b' ∧ b'.WellRooted ∧
          b.Rerooted b' n t r passed x := by
      intro hLength
      refine ⟨b, [], r, lowerRoot_of_ne (fun y hy => hLength ?_) fuel, h, .stays hSlot hLength⟩
      rw [hy]
      rfl
    cases hChildren : (b.node r).children with
    | nil => exact hStop (by simp [hChildren])
    | cons y ys =>
      cases ys with
      | cons z zs => exact hStop (by simp [hChildren])
      | nil =>
        obtain ⟨hTurn, hLowered⟩ := h.lowered hSlot hChildren
        have hLess : r < y := (h.child r y (mem_of_single hChildren)).2.1
        have hRelinked : b.Relinked ((b.rooted y).pruned r) :=
          relinked_rooted.trans relinked_pruned
        have hKept : ∀ m, m ≠ r →
            (((b.rooted y).pruned r).node m).children = (b.node m).children :=
          fun m hm => (hLowered.kept m fun hmr => hm (List.mem_singleton.mp hmr)).1
        rw [lowerRoot_single hChildren]
        split
        · rename_i hEnd
          refine ⟨_, [r], y, rfl, hTurn, .down hChildren (.here y), hLowered, hRelinked,
            List.mem_singleton.mp, hEnd.imp_right fun hMany hOne => ?_⟩
          rw [NodeCore.childrenCount, hKept y (Nat.ne_of_gt hLess), hOne] at hMany
          exact absurd hMany (by decide)
        · rename_i hGoesOn
          have hFuel' : b.uniqueIdCounter < y + fuel := by
            apply Nat.lt_of_lt_of_le hFuel
            rw [← Nat.succ_add_eq_add_succ]
            exact Nat.add_le_add_right hLess fuel
          obtain ⟨b', passed, x, hOk, hRest, hMoves⟩ := ih hTurn hLowered.slot hFuel'
          have hAbove : ∀ m ∈ passed, m ≠ r := by
            rintro m hm rfl
            exact absurd (hTurn.not_above (hMoves.passes.reaches.2 m hm)) (Nat.not_le_of_gt hLess)
          have hBeyond : x ≠ r := by
            rintro rfl
            exact absurd (hTurn.not_above hMoves.passes.reaches.1) (Nat.not_le_of_gt hLess)
          refine ⟨b', r :: passed, x, hOk, hRest, ?_, ?_, hRelinked.trans hMoves.relinked, ?_, ?_⟩
          · exact .down hChildren (hMoves.passes.congr fun m hm => (hKept m (hAbove m hm)).symm)
          · exact hLowered.trans hMoves.lowered (fun hr => hAbove r hr rfl) hBeyond
              hMoves.passes.start
          · intro hMem
            obtain hMem | hMem := List.mem_cons.mp hMem
            · exact hMem
            · exact absurd (.inl (hMoves.start hMem).symm) hGoesOn
          · rw [← hKept x hBeyond]
            exact hMoves.stop

theorem slot_of_getRoot (hRoot : b.getRoot n = some r) :
    b.roots (b.node n).threadId = some r := by
  rw [getRoot] at hRoot
  split at hRoot
  · rename_i t ht
    rw [← h.root n t ht]
    exact hRoot
  · cases hRoot

theorem tryCorrectRoot (n : NodeId) :
    ∃ b', b.tryCorrectRoot n = .ok b' ∧ b'.WellRooted ∧ (b.getRoot n = none → b' = b) ∧
      ∀ r, b.getRoot n = some r → ∃ passed x, b.Rerooted b' n (b.node n).threadId r passed x := by
  rw [Balancer.tryCorrectRoot]
  cases hRoot : b.getRoot n with
  | none => exact ⟨b, rfl, h, fun _ => rfl, (by rintro _ ⟨⟩)⟩
  | some r =>
    have hSlot := h.slot_of_getRoot hRoot
    have hStay : (b.node r).children.length ≠ 1 → ∀ r', some r = some r' →
        ∃ passed x, b.Rerooted b n (b.node n).threadId r' passed x := by
      rintro hLength _ ⟨⟩
      exact ⟨[], r, .stays hSlot hLength⟩
    dsimp only
    split
    · rename_i hLeaf
      have hLength : (b.node r).children.length = 0 := hLeaf.2
      exact ⟨b, rfl, h, (by rintro ⟨⟩), hStay (by rw [hLength]; decide)⟩
    · split
      · rename_i hMany
        exact ⟨b, rfl, h, (by rintro ⟨⟩), hStay (Nat.ne_of_gt hMany)⟩
      · obtain ⟨b', passed, x, hOk, hRest, hMoves⟩ :=
          h.lowerRoot n hSlot (Nat.lt_of_lt_of_le (Nat.lt_succ_self _) (Nat.le_add_left _ r))
        refine ⟨b', hOk, hRest, (by rintro ⟨⟩), ?_⟩
        rintro _ ⟨⟩
        exact ⟨passed, x, hMoves⟩

end WellRooted

theorem Built.wellRooted (h : b.Built) : b.WellRooted := by
  induction h with
  | initial answers worker => exact .initial answers worker
  | create _ t parent core hCore hParent hOk ih => exact ih.created hCore hParent hOk
  | prune _ n hOk ih =>
    rw [prune_eq] at hOk
    cases hOk
    exact ih.pruned n
  | correct _ n hOk ih =>
    obtain ⟨b', hOk', hRest, -⟩ := ih.tryCorrectRoot n
    rw [hOk] at hOk'
    cases hOk'
    exact hRest
  | settle _ hSettles ih => exact ih.settle hSettles

end Balancer

end Gempba
