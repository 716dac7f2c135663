import Mathlib.Data.Finset.Card
import Gempba.LoadBalancing.Submissions

/-!
# The null node

The parent of the node that is submitted is the only null node the balancer
can come across. A node loses its parent when the root of its thread comes
down to it, while the nodes above it are handed out.
-/

namespace Gempba

set_option autoImplicit false

open NodeCore Transition

namespace NodeCore

/-- Unused, and delegated without a throw if it branches. -/
structure Deliverable (c : NodeCore Call) : Prop where
  state : c.state = .unused
  ready : c.shouldBranch.1 = true → ∃ k, c.shouldBranch.2.ensureArgsInitialized = .ok k

theorem shouldBranch_unlinked (c : NodeCore Call) :
    c.unlinked.shouldBranch = (c.shouldBranch.1, c.shouldBranch.2.unlinked) := by
  obtain ⟨_, _, _, initializer, calls, _, cached, flag, _, state, _, _, _, _⟩ := c
  simp only [NodeCore.shouldBranch, unlinked]
  cases cached with
  | some cached => rfl
  | none =>
    cases state <;> cases flag <;> try rfl
    all_goals cases initializer calls <;> rfl

theorem ensureArgsInitialized_unlinked (c : NodeCore Call) :
    c.unlinked.ensureArgsInitialized = c.ensureArgsInitialized.map unlinked := by
  obtain ⟨_, _, _, initializer, calls, _, _, flag, _, _, _, _, _, _⟩ := c
  simp only [ensureArgsInitialized, unlinked]
  cases flag <;> try rfl
  cases initializer calls <;> rfl

theorem deliverable_unlinked (c : NodeCore Call) : c.unlinked.Deliverable ↔ c.Deliverable := by
  have hReady : (∃ k, c.shouldBranch.2.unlinked.ensureArgsInitialized = .ok k) ↔
      ∃ k, c.shouldBranch.2.ensureArgsInitialized = .ok k := by
    rw [ensureArgsInitialized_unlinked]
    constructor
    · rintro ⟨k, hk⟩
      obtain ⟨k', hk', -⟩ := map_ok hk
      exact ⟨k', hk'⟩
    · rintro ⟨k, hk⟩
      rw [hk]
      exact ⟨_, rfl⟩
  constructor
  · rintro ⟨hState, hBranches⟩
    rw [shouldBranch_unlinked] at hBranches
    exact ⟨hState, fun h => hReady.mp (hBranches h)⟩
  · rintro ⟨hState, hBranches⟩
    refine ⟨hState, ?_⟩
    rw [shouldBranch_unlinked]
    exact fun h => hReady.mpr (hBranches h)

end NodeCore

namespace Balancer

/-- From `r` down to `p` along the first children, past others that can be handed out. -/
inductive Leads (b : Balancer) : NodeId → NodeId → Prop
  | here (r : NodeId) : Leads b r r
  | down {r y p : NodeId} {others : List NodeId} (h : (b.node r).children = y :: others)
      (hOthers : ∀ w ∈ others, (b.node w).Deliverable) (hs : Leads b y p) : Leads b r p

/-- The root `r` comes down to `n` when the nodes above `n` are handed out. -/
structure Exposed (b : Balancer) (n r p : NodeId) : Prop where
  root : b.getRoot n = some r
  parent : (b.node n).parent = some p
  apart : p ≠ r
  several : 2 ≤ (b.node r).children.length
  leads : b.Leads r p
  only : (b.node p).children = [n]

/-- `n` has no parent, or will have none, when the balancer looks for it, and is then not the
childless root of its thread. -/
def Unrecognised (b : Balancer) (n : NodeId) : Prop :=
  (b.node n).parent = none ∧ ¬ (b.getRoot n = some n ∧ (b.node n).children = []) ∨
    (b.node n).children ≠ [] ∧ ∃ r p, b.Exposed n r p

/-- `n` will be recognised, if it is still to be submitted. -/
def Recognises (b : Balancer) (n : NodeId) : Prop :=
  (b.node n).state = .unused → ¬ b.Unrecognised n

/-- `s`, the second child of the root `r`, has been handed out, and the root is now `x`. -/
structure Turn (b b' : Balancer) (n r y s : NodeId) (others passed : List NodeId) (x : NodeId) :
    Prop where
  rooted : b'.WellRooted
  core : ∀ m, m ≠ s → (b'.node m).unlinked = (b.node m).unlinked
  children : ∀ m, m ≠ s → m ∉ passed →
    (b'.node m).children = if m = r then y :: others else (b.node m).children
  gone : ∀ m, m = s ∨ m ∈ passed → (b'.node m).children = []
  kept : n ∉ passed
  root : b'.getRoot n = some x
  parent : n ≠ x → (b'.node n).parent = (b.node n).parent
  orphan : (b'.node x).parent = none
  freed : (b'.node s).parent = none
  parents : ∀ m, (b.node m).parent = none → (b'.node m).parent = none
  counter : b'.uniqueIdCounter = b.uniqueIdCounter
  answers : b'.answers = b.answers
  moved : others ≠ [] ∧ passed = [] ∧ x = r ∨
    others = [] ∧ ∃ l, passed = r :: l ∧ b.Passes y l x ∧
      (x = n ∨ (b.node x).children.length ≠ 1)

variable {b b' b₁ b₂ : Balancer} {n m p r s x y : NodeId} {t : ThreadId} {route : Route}
  {others passed l : List NodeId} {picks : List Pick}

namespace Leads

theorem reaches (h : b.Leads r p) : b.Below r p := by
  induction h with
  | here r => exact .refl
  | down hChildren _ _ ih => exact .head (by rw [hChildren]; exact List.mem_cons_self) ih

theorem congr (h : b.Leads r p) (hSame : ∀ m, b.Below r m → (b.node m).children ≠ [] →
    (b'.node m).children = (b.node m).children ∧
      ∀ w ∈ (b.node m).children, (b.node w).Deliverable → (b'.node w).Deliverable) :
    b'.Leads r p := by
  induction h with
  | here r => exact .here r
  | @down r y p others hChildren hOthers hs ih =>
    obtain ⟨hEq, hKept⟩ := hSame r .refl (by rw [hChildren]; exact List.cons_ne_nil _ _)
    have hMem : ∀ w ∈ y :: others, w ∈ (b.node r).children := by
      rw [hChildren]
      exact fun w hw => hw
    refine .down (hEq.trans hChildren) (fun w hw => ?_) (ih fun m hm => hSame m ?_)
    · exact hKept w (hMem w (List.mem_cons_of_mem _ hw)) (hOthers w hw)
    · exact .head (hMem y List.mem_cons_self) hm

end Leads

namespace Passes

theorem leads (h : b.Passes y l x) (hx : b.Leads x p) : b.Leads y p := by
  induction h with
  | here => exact hx
  | down hChild _ ih => exact .down hChild (by rintro _ ⟨⟩) (ih hx)

theorem last (h : b.Passes y l x) :
    y = x ∨ ∃ q, b.Leads y q ∧ (b.node q).children = [x] := by
  induction h with
  | here => exact .inl rfl
  | @down r y x l hChild _ ih =>
    obtain rfl | ⟨q, hLeads, hq⟩ := ih
    · exact .inr ⟨r, .here r, hChild⟩
    · exact .inr ⟨q, .down hChild (by rintro _ ⟨⟩) hLeads, hq⟩

/-- The root stops at `n`, or above the parent of `n` with several children. -/
theorem stops (h : b.Passes y l x) (hLeads : b.Leads y p) (hOnly : (b.node p).children = [n])
    (hn : n ∉ l) (hStop : x = n ∨ (b.node x).children.length ≠ 1) :
    x = n ∨ b.Leads x p ∧ p ≠ x ∧ 2 ≤ (b.node x).children.length := by
  induction h with
  | here y =>
    refine hStop.imp_right fun hLength => ?_
    cases hLeads with
    | here =>
      rw [hOnly] at hLength
      exact absurd rfl hLength
    | @down _ z _ others hChildren hOthers hs =>
      refine ⟨.down hChildren hOthers hs, ?_, ?_⟩
      · rintro rfl
        rw [hOnly] at hLength
        exact hLength rfl
      · rw [hChildren] at hLength ⊢
        cases others with
        | nil => exact absurd rfl hLength
        | cons w ws => exact Nat.le_add_left 2 ws.length
  | @down y z x l hChild hs ih =>
    have hRest : n ∉ l := fun hMem => hn (List.mem_cons_of_mem _ hMem)
    cases hLeads with
    | here =>
      rw [hOnly] at hChild
      cases hChild
      cases hs with
      | here => exact .inl rfl
      | down _ _ => exact absurd List.mem_cons_self hRest
    | down hChildren _ hLeads =>
      rw [hChild] at hChildren
      cases hChildren
      exact ih hLeads hRest hStop

end Passes

namespace WellRooted

variable (h : b.WellRooted) (hChildren : (b.node r).children = y :: s :: others)

include h hChildren

theorem first : (b.node y).parent = some r ∧ r < y := by
  have hMem : y ∈ (b.node r).children := by
    rw [hChildren]
    exact List.mem_cons_self
  exact ⟨h.parent_eq hMem, (h.child r y hMem).2.1⟩

theorem second : (b.node s).parent = some r ∧ r < s := by
  have hMem : s ∈ (b.node r).children := by
    rw [hChildren]
    exact List.mem_cons_of_mem _ List.mem_cons_self
  exact ⟨h.parent_eq hMem, (h.child r s hMem).2.1⟩

theorem not_below_second : ¬ b.Below y s := by
  intro hBelow
  have hNodup := h.nodup r
  rw [hChildren] at hNodup
  obtain hSame | ⟨q, hq, hChild⟩ := hBelow.cases_tail
  · rw [hSame] at hNodup
    exact (List.nodup_cons.mp hNodup).1 List.mem_cons_self
  · have hParent := h.parent_eq hChild
    rw [(h.second hChildren).1] at hParent
    cases hParent
    exact absurd (h.not_above hq) (Nat.not_le_of_gt (h.first hChildren).2)

end WellRooted

theorem filter_second (h : (y :: s :: others).Nodup) :
    (y :: s :: others).filter (· != s) = y :: others := by
  obtain ⟨hy, hs⟩ := List.nodup_cons.mp h
  obtain ⟨hs, -⟩ := List.nodup_cons.mp hs
  have hys : y ≠ s := List.ne_of_not_mem_cons hy
  rw [List.filter_cons_of_pos (by simp [hys]), List.filter_cons_of_neg (by simp),
    List.filter_eq_self.mpr]
  intro w hw
  exact bne_iff_ne.mpr (ne_of_mem_of_not_mem hw hs)

theorem getRoot_congr (hRoot : (b'.node n).root = (b.node n).root) (hRoots : b'.roots = b.roots) :
    b'.getRoot n = b.getRoot n := by
  rw [getRoot, getRoot, hRoot, hRoots]

/-- What handing out `s` comes to, whatever becomes of `s` itself. -/
theorem WellRooted.turn (h : b.WellRooted) (hRoot : b.getRoot n = some r)
    (hParent : (b.node n).parent = some p) (hApart : p ≠ r)
    (hChildren : (b.node r).children = y :: s :: others)
    (hOk : Balancer.tryCorrectRoot { b.pruned s with picks } n = .ok b₁)
    (hTouches : b₁.Touches b₂ s) : ∃ passed x, b.Turn b₂ n r y s others passed x := by
  have hSlot := h.slot_of_getRoot hRoot
  have hOrphan := (h.slot _ _ hSlot).2.1
  obtain ⟨hParentS, hrs⟩ := h.second hChildren
  have hrs := Nat.ne_of_lt hrs
  have hys : y ≠ s := by
    rintro rfl
    exact h.not_below_second hChildren .refl
  have hns : n ≠ s := by
    rintro rfl
    rw [hParent] at hParentS
    exact hApart (Option.some.inj hParentS)
  have hnr : n ≠ r := by
    rintro rfl
    rw [hParent] at hOrphan
    cases hOrphan
  -- the state in which the root is corrected
  let b₀ : Balancer := { b.pruned s with picks }
  have h₀ : b₀.WellRooted := (h.pruned s).settle ⟨fun _ => rfl, rfl, rfl⟩
  have hRoot₀ : b₀.getRoot n = some r := (getRoot_congr (root_pruned hns) rfl).trans hRoot
  have hChildren₀ : ∀ m, m ≠ s →
      (b₀.node m).children = if m = r then y :: others else (b.node m).children := by
    intro m hm
    change ((b.pruned s).node m).children = _
    obtain rfl | hmr := eq_or_ne m r
    · rw [pruned_node_parent hParentS hm, hChildren, if_pos rfl]
      exact filter_second (hChildren ▸ h.nodup m)
    · rw [pruned_node_of_ne hm (fun hp => hmr (Option.some.inj (hp.symm.trans hParentS))),
        if_neg hmr]
  have hGone₀ : (b₀.node s).children = [] := congrArg NodeCore.children pruned_node_self
  obtain ⟨b₁', hOk', h₁, -, hMoves⟩ := h₀.tryCorrectRoot n
  cases hOk.symm.trans hOk'
  obtain ⟨passed, x, hMoves⟩ := hMoves r hRoot₀
  have hLowered := hMoves.lowered
  have hSettles := hTouches.settles
  have hn : n ∉ passed := fun hm => hnr (hMoves.start hm)
  have h₂ : b₂.WellRooted := h₁.settle hSettles
  have hSlot₂ : b₂.roots (b.node n).threadId = some x := by
    rw [hTouches.roots, ← threadId_pruned (n := s)]
    exact hLowered.slot
  have hOrphan₂ := (h₂.slot _ _ hSlot₂).2.1
  have hKept : ∀ m, m ∉ passed → (b₂.node m).children = (b₀.node m).children ∧
      (b₂.node m).root = (b₀.node m).root ∧ (m ≠ x → (b₂.node m).parent = (b₀.node m).parent) := by
    intro m hm
    rw [hSettles.children_eq, hSettles.root_eq, hSettles.parent_eq]
    exact hLowered.kept m hm
  have hLeft : ∀ m ∈ passed, (b₂.node m).children = [] ∧ (b₂.node m).parent = none := by
    intro m hm
    rw [hSettles.children_eq, hSettles.parent_eq]
    exact ⟨(hLowered.left m hm).1, (hLowered.left m hm).2.1⟩
  have hParents : ∀ m, (b₀.node m).parent = none → (b₂.node m).parent = none := by
    intro m hm
    obtain hPassed | hPassed := em (m ∈ passed)
    · exact (hLeft m hPassed).2
    · obtain rfl | hmx := eq_or_ne m x
      · exact hOrphan₂
      · exact ((hKept m hPassed).2.2 hmx).trans hm
  refine ⟨passed, x, ?_⟩
  constructor
  case rooted => exact h₂
  case core =>
    intro m hm
    rw [hTouches.other m hm, hMoves.relinked.node m]
    exact relinked_pruned.node m
  case children => exact fun m hms hm => (hKept m hm).1.trans (hChildren₀ m hms)
  case gone =>
    rintro m (rfl | hm)
    · obtain hPassed | hPassed := em (m ∈ passed)
      · exact (hLeft m hPassed).1
      · exact (hKept m hPassed).1.trans hGone₀
    · exact (hLeft m hm).1
  case kept => exact hn
  case root =>
    cases hThread : (b.node n).root with
    | none =>
      rw [getRoot, hThread] at hRoot
      cases hRoot
    | some t =>
      have hThread₂ : (b₂.node n).root = some t :=
        ((hKept n hn).2.1.trans (root_pruned hns)).trans hThread
      rw [getRoot, hThread₂]
      exact h.root n t hThread ▸ hSlot₂
  case parent => exact fun hnx => ((hKept n hn).2.2 hnx).trans (Consistent.parent_pruned hns)
  case orphan => exact hOrphan₂
  case freed => exact hParents s (congrArg NodeCore.parent pruned_node_self)
  case parents =>
    intro m hm
    refine hParents m ?_
    obtain rfl | hms := eq_or_ne m s
    · exact congrArg NodeCore.parent pruned_node_self
    · exact (Consistent.parent_pruned hms).trans hm
  case counter => exact hTouches.counter.trans hLowered.counter
  case answers =>
    exact hTouches.answers.trans (hMoves.relinked.field (fun c => c.answers) fun _ _ _ => rfl)
  case moved =>
    have hStop := hMoves.stop
    cases hMoves.passes with
    | here =>
      refine .inl ⟨?_, rfl, rfl⟩
      rintro rfl
      rw [hChildren₀ r hrs, if_pos rfl] at hStop
      exact hStop.elim (fun hrn => hnr hrn.symm) fun hLength => hLength rfl
    | @down _ z _ l hChild hs =>
      rw [hChildren₀ r hrs, if_pos rfl] at hChild
      cases hChild
      have hSame : ∀ m, b₀.Below y m → m ≠ r ∧ m ≠ s := by
        intro m hm
        constructor
        · rintro rfl
          exact absurd (h₀.not_above hm) (Nat.not_le_of_gt (h.first hChildren).2)
        · rintro rfl
          obtain hSame | ⟨q, -, hChild⟩ := hm.cases_tail
          · exact hys hSame.symm
          · have hFreed : (b₀.node m).parent = none := congrArg NodeCore.parent pruned_node_self
            rw [h₀.parent_eq hChild] at hFreed
            cases hFreed
      have hOther : ∀ m, b₀.Below y m → (b.node m).children = (b₀.node m).children := by
        intro m hm
        obtain ⟨hmr, hms⟩ := hSame m hm
        rw [hChildren₀ m hms, if_neg hmr]
      refine .inr ⟨rfl, l, rfl, hs.congr fun m hm => hOther m (hs.reaches.2 m hm), ?_⟩
      rw [hOther x hs.reaches.1]
      exact hStop

namespace Turn

variable (hTurn : b.Turn b₂ n r y s others passed x) (h : b.WellRooted)
  (hChildren : (b.node r).children = y :: s :: others)

include hTurn

theorem deliverable (hm : m ≠ s) : (b₂.node m).Deliverable ↔ (b.node m).Deliverable := by
  rw [← deliverable_unlinked, hTurn.core m hm, deliverable_unlinked]

include h hChildren

theorem leads_of {z q : NodeId} (hz : r < z) (hLeads : b₂.Leads z q) : b.Leads z q := by
  refine hLeads.congr fun m hm hMany => ?_
  have hms : m ≠ s := fun hms => hMany (hTurn.gone m (.inl hms))
  have hPassed : m ∉ passed := fun hMem => hMany (hTurn.gone m (.inr hMem))
  have hmr : m ≠ r := Nat.ne_of_gt (Nat.lt_of_lt_of_le hz (hTurn.rooted.not_above hm))
  have hEq := hTurn.children m hms hPassed
  rw [if_neg hmr] at hEq
  refine ⟨hEq.symm, fun w hw => (hTurn.deliverable ?_).mp⟩
  rintro rfl
  rw [hEq] at hw
  exact hmr (Option.some.inj ((h.parent_eq hw).symm.trans (h.second hChildren).1))

theorem leads_to {z q : NodeId} (hz : b.Below y z) (hAbove : ∀ m ∈ passed, m < z)
    (hLeads : b.Leads z q) : b₂.Leads z q := by
  have hLess := (h.first hChildren).2
  refine hLeads.congr fun m hm _ => ?_
  have hzm := h.not_above hm
  have hms : m ≠ s := by
    rintro rfl
    exact h.not_below_second hChildren (hz.trans hm)
  have hPassed : m ∉ passed := fun hMem => absurd hzm (Nat.not_le_of_gt (hAbove m hMem))
  have hmr : m ≠ r :=
    Nat.ne_of_gt (Nat.lt_of_lt_of_le hLess (Nat.le_trans (h.not_above hz) hzm))
  have hEq := hTurn.children m hms hPassed
  rw [if_neg hmr] at hEq
  refine ⟨hEq, fun w hw => (hTurn.deliverable ?_).mpr⟩
  rintro rfl
  exact hmr (Option.some.inj ((h.parent_eq hw).symm.trans (h.second hChildren).1))

/-- Handing out a node above `n` neither exposes `n` nor covers it. -/
theorem unrecognised_iff (hRoot : b.getRoot n = some r) (hParent : (b.node n).parent = some p)
    (hApart : p ≠ r) (hDeliverable : (b.node s).Deliverable) :
    b₂.Unrecognised n ↔ b.Unrecognised n := by
  obtain ⟨hParentY, hLess⟩ := h.first hChildren
  have hParentS := (h.second hChildren).1
  have hOrphan := (h.slot _ _ (h.slot_of_getRoot hRoot)).2.1
  have hns : n ≠ s := by
    rintro rfl
    exact hApart (Option.some.inj (hParent.symm.trans hParentS))
  have hnr : n ≠ r := by
    rintro rfl
    rw [hParent] at hOrphan
    cases hOrphan
  have hSame : (b₂.node n).children = (b.node n).children := by
    rw [hTurn.children n hns hTurn.kept, if_neg hnr]
  have hSameP : p ≠ s → p ∉ passed → (b₂.node p).children = (b.node p).children := by
    intro hps hPassed
    rw [hTurn.children p hps hPassed, if_neg hApart]
  have hSeveral : 2 ≤ (b.node r).children.length := by
    rw [hChildren]
    exact Nat.le_add_left 2 _
  have hRootChildren : r ∉ passed → (b₂.node r).children = y :: others := by
    intro hPassed
    rw [hTurn.children r (Nat.ne_of_lt (h.second hChildren).2) hPassed, if_pos rfl]
  have hOther : ∀ w ∈ others, w ≠ s := by
    have hNodup := h.nodup r
    rw [hChildren] at hNodup
    exact fun w hw => ne_of_mem_of_not_mem hw (List.nodup_cons.mp (List.nodup_cons.mp hNodup).2).1
  constructor
  · rintro (⟨hNone, hLost⟩ | ⟨hMany, r', p', hExposed⟩)
    · -- the root has come down to `n`
      have hnx : n = x := by
        by_contra hnx
        rw [hTurn.parent hnx, hParent] at hNone
        cases hNone
      subst hnx
      refine .inr ⟨fun hLeaf => hLost ⟨hTurn.root, hSame.trans hLeaf⟩, r, p, ?_⟩
      obtain ⟨-, -, hnr'⟩ | ⟨rfl, l, -, hPasses, -⟩ := hTurn.moved
      · exact absurd hnr' hnr
      · obtain rfl | ⟨q, hLeads, hOnly⟩ := hPasses.last
        · exact absurd (Option.some.inj (hParent.symm.trans hParentY)) hApart
        · have hChild : n ∈ (b.node q).children := mem_of_single hOnly
          cases hParent.symm.trans (h.parent_eq hChild)
          refine ⟨hRoot, hParent, hApart, hSeveral, .down hChildren ?_ hLeads, hOnly⟩
          intro w hw
          rw [List.mem_singleton.mp hw]
          exact hDeliverable
    · have hnx : n ≠ x := by
        rintro rfl
        have hNone := hTurn.orphan
        rw [hExposed.parent] at hNone
        cases hNone
      cases hTurn.root.symm.trans hExposed.root
      cases hParent.symm.trans ((hTurn.parent hnx).symm.trans hExposed.parent)
      have hFull : (b₂.node p).children ≠ [] := by
        rw [hExposed.only]
        exact List.cons_ne_nil _ _
      have hOnly : (b.node p).children = [n] := by
        rw [← hSameP (fun hps => hFull (hTurn.gone p (.inl hps)))
          fun hPassed => hFull (hTurn.gone p (.inr hPassed))]
        exact hExposed.only
      refine .inr ⟨hSame ▸ hMany, r, p, hRoot, hParent, hApart, hSeveral, ?_, hOnly⟩
      obtain ⟨-, rfl, rfl⟩ | ⟨rfl, l, -, hPasses, -⟩ := hTurn.moved
      · cases hExposed.leads with
        | here => exact absurd rfl hApart
        | down hFirst hOthers hLeads =>
          rw [hRootChildren List.not_mem_nil] at hFirst
          cases hFirst
          refine .down hChildren ?_ (hTurn.leads_of h hChildren hLess hLeads)
          intro w hw
          obtain rfl | hw := List.mem_cons.mp hw
          · exact hDeliverable
          · exact (hTurn.deliverable (hOther w hw)).mp (hOthers w hw)
      · have hx : r < x := Nat.lt_of_lt_of_le hLess (h.not_above hPasses.reaches.1)
        refine .down hChildren ?_ (hPasses.leads (hTurn.leads_of h hChildren hx hExposed.leads))
        intro w hw
        rw [List.mem_singleton.mp hw]
        exact hDeliverable
  · rintro (⟨hNone, -⟩ | ⟨hMany, r', p', hExposed⟩)
    · rw [hParent] at hNone
      cases hNone
    · cases hRoot.symm.trans hExposed.root
      cases hParent.symm.trans hExposed.parent
      cases hExposed.leads with
      | here => exact absurd rfl hApart
      | down hFirst hOthers hLeads =>
        rw [hChildren] at hFirst
        cases hFirst
        have hBelowP := hLeads.reaches
        have hps : p ≠ s := by
          rintro rfl
          exact h.not_below_second hChildren hBelowP
        have hWaiting : ∀ w ∈ others, (b₂.node w).Deliverable := fun w hw =>
          (hTurn.deliverable (hOther w hw)).mpr (hOthers w (List.mem_cons_of_mem _ hw))
        obtain ⟨hRest, rfl, rfl⟩ | ⟨rfl, l, rfl, hPasses, hStop⟩ := hTurn.moved
        · -- the root has stayed
          refine .inr ⟨hSame ▸ hMany, x, p, hTurn.root, (hTurn.parent hnr).trans hParent, hApart,
            ?_, .down (hRootChildren List.not_mem_nil) hWaiting
              (hTurn.leads_to h hChildren .refl (by rintro _ ⟨⟩) hLeads), ?_⟩
          · rw [hRootChildren List.not_mem_nil]
            exact Nat.succ_le_succ (List.length_pos_iff.mpr hRest)
          · rw [hSameP hps List.not_mem_nil]
            exact hExposed.only
        · have hKept : n ∉ l := fun hn => hTurn.kept (List.mem_cons_of_mem _ hn)
          have hBelowX := hPasses.reaches.1
          have hAbove : ∀ m ∈ r :: l, m < x := by
            intro m hm
            obtain rfl | hm := List.mem_cons.mp hm
            · exact Nat.lt_of_lt_of_le hLess (h.not_above hBelowX)
            · exact hPasses.lt h m hm
          obtain rfl | hxn := eq_or_ne x n
          · exact .inl ⟨hTurn.orphan, fun hLeaf => hMany (hSame.symm.trans hLeaf.2)⟩
          · obtain ⟨hLeads, hpx, hMore⟩ :=
              (hPasses.stops hLeads hExposed.only hKept hStop).resolve_left hxn
            have hxs : x ≠ s := by
              rintro rfl
              exact h.not_below_second hChildren hBelowX
            have hpPassed : p ∉ r :: l := fun hMem =>
              absurd (h.not_above hLeads.reaches) (Nat.not_le_of_gt (hAbove p hMem))
            refine .inr ⟨hSame ▸ hMany, x, p, hTurn.root, (hTurn.parent hxn.symm).trans hParent,
              hpx, ?_, hTurn.leads_to h hChildren hBelowX hAbove hLeads, ?_⟩
            · rw [hTurn.children x hxs (fun hMem => Nat.lt_irrefl x (hAbove x hMem)),
                if_neg (Nat.ne_of_gt (hAbove r List.mem_cons_self))]
              exact hMore
            · rw [hSameP hps hpPassed]
              exact hExposed.only

end Turn

/-! ## Throws of the members -/

theorem bind_ne_error {ε α β : Type} {x : Except ε α} {f : α → Except ε β} {e : ε}
    (hx : x ≠ .error e) (hf : ∀ a, x = .ok a → f a ≠ .error e) : (x >>= f) ≠ .error e := by
  cases x with
  | error e' => exact fun h => hx (congrArg Except.error (Except.error.inj h))
  | ok a => exact hf a rfl

theorem ensureArgsInitialized_ne_nullNode (c : NodeCore Call) :
    c.ensureArgsInitialized ≠ .error .nullNode := by
  rw [ensureArgsInitialized]
  split
  · rintro ⟨⟩
  · split <;> rintro ⟨⟩
  · rintro ⟨⟩

theorem serialize_ne_nullNode (c : NodeCore Call) : c.serialize ≠ .error .nullNode := by
  rw [serialize]
  split
  · rintro ⟨⟩
  · rintro ⟨⟩
  · split <;> rintro ⟨⟩

theorem delegate_ne_nullNode (b : Balancer) (n : NodeId) (route : Route) :
    b.delegate n route ≠ .error .nullNode := by
  cases route with
  | locally =>
    change delegateLocally (b.handOut n) n ≠ _
    rw [delegateLocally]
    split
    · rintro ⟨⟩
    · exact bind_ne_error (ensureArgsInitialized_ne_nullNode _) (by rintro _ _ ⟨⟩)
  | remotely runnableId =>
    change delegateRemotely (b.handOut n) n runnableId ≠ _
    rw [delegateRemotely]
    split
    · rintro ⟨⟩
    · exact bind_ne_error (ensureArgsInitialized_ne_nullNode _) fun c _ =>
        bind_ne_error (serialize_ne_nullNode c) (by rintro _ _ ⟨⟩)

theorem delegateOrDiscard_ne_nullNode (b : Balancer) (n : NodeId) (route : Route) :
    b.delegateOrDiscard n route ≠ .error .nullNode := by
  rw [delegateOrDiscard, shouldBranch_eq]
  cases (b.node n).shouldBranch.1 with
  | true => exact delegate_ne_nullNode _ _ _
  | false => rintro ⟨⟩

theorem enter_ne_nullNode (b : Balancer) (n : NodeId) : b.enter n ≠ .error .nullNode := by
  rw [enter]
  split
  · rintro ⟨⟩
  · refine bind_ne_error (ensureArgsInitialized_ne_nullNode _) fun c _ => ?_
    dsimp only
    split <;> rintro ⟨⟩

theorem deliverable_of_ok (hState : (b.node n).state = .unused)
    (hOk : b.delegateOrDiscard n route = .ok b') : (b.node n).Deliverable := by
  refine ⟨hState, fun hBranches => ?_⟩
  rw [delegateOrDiscard, shouldBranch_eq, hBranches] at hOk
  have hNode : ((b.answer n).handOut n).node n = (b.node n).shouldBranch.2 := answer_node_self
  cases route with
  | locally =>
    change delegateLocally ((b.answer n).handOut n) n = _ at hOk
    rw [delegateLocally, hNode] at hOk
    split at hOk
    · cases hOk
    · obtain ⟨k, hk, -⟩ := bind_ok hOk
      exact ⟨k, hk⟩
  | remotely runnableId =>
    change delegateRemotely ((b.answer n).handOut n) n runnableId = _ at hOk
    rw [delegateRemotely, hNode] at hOk
    split at hOk
    · cases hOk
    · obtain ⟨k, hk, -⟩ := bind_ok hOk
      exact ⟨k, hk⟩

theorem delegateOrDiscard_locally (h : (b.node n).Deliverable) :
    ∃ b', b.delegateOrDiscard n .locally = .ok b' := by
  rw [delegateOrDiscard, shouldBranch_eq]
  cases hBranches : (b.node n).shouldBranch.1 with
  | false => exact ⟨_, rfl⟩
  | true =>
    obtain ⟨k, hk⟩ := h.ready hBranches
    have hNode : ((b.answer n).handOut n).node n = (b.node n).shouldBranch.2 := answer_node_self
    have hState := (shouldBranch_links (b.node n)).2.trans h.state
    change ∃ b', delegateLocally ((b.answer n).handOut n) n = .ok b'
    rw [delegateLocally, hNode, if_neg (fun hUsed => hUsed hState), hk]
    exact ⟨_, rfl⟩

/-! ## The loop of `send` -/

theorem getRootLevelPendingNode_eq (hRoot : b.getRoot n = some r)
    (hParent : (b.node n).parent = some p) (hApart : p ≠ r)
    (hChildren : (b.node r).children = y :: s :: others) :
    ∃ picks, b.getRootLevelPendingNode n = .ok (some s, { b.pruned s with picks }) := by
  have hMany : ¬ (b.node r).childrenCount < 2 := by
    rw [NodeCore.childrenCount, hChildren]
    exact Nat.not_lt_of_le (Nat.le_add_left 2 _)
  rw [getRootLevelPendingNode, hRoot, hParent, if_neg (by rintro ⟨⟩),
    if_neg (fun h => hApart (Option.some.inj h))]
  dsimp only
  rw [if_neg hMany, getSecondLeftmostChild, hChildren]
  change ∃ picks, (b.prune s >>= fun b' => _) = _
  rw [prune_eq]
  exact ⟨_, rfl⟩

theorem getRootLevelPendingNode_cases (b : Balancer) (n : NodeId) :
    (∃ k, b.getRootLevelPendingNode n = .ok (none, { b with defensiveReturns := k })) ∨
      ∃ r p y s others, b.getRoot n = some r ∧ (b.node n).parent = some p ∧ p ≠ r ∧
        (b.node r).children = y :: s :: others := by
  rw [getRootLevelPendingNode]
  split
  · exact .inl ⟨b.defensiveReturns, rfl⟩
  · rename_i hParent
    obtain ⟨p, hp⟩ := Option.ne_none_iff_exists'.mp hParent
    split
    · exact .inl ⟨b.defensiveReturns, rfl⟩
    · rename_i hApart
      cases hRoot : b.getRoot n with
      | none => exact .inl ⟨b.defensiveReturns, rfl⟩
      | some r =>
        rw [hp, hRoot] at hApart
        dsimp only
        split
        · exact .inl ⟨b.defensiveReturns + 1, rfl⟩
        · rename_i hMany
          refine .inr ⟨r, p, ?_⟩
          rw [NodeCore.childrenCount] at hMany
          cases hChildren : (b.node r).children with
          | nil =>
            rw [hChildren] at hMany
            exact absurd Nat.zero_lt_two hMany
          | cons y ys =>
            cases ys with
            | nil =>
              rw [hChildren] at hMany
              exact absurd Nat.one_lt_two hMany
            | cons s others =>
              exact ⟨y, s, others, rfl, hp, fun h => hApart (congrArg some h), rfl⟩

theorem tryPushRootLevelNode_none {k : ℕ}
    (h : b.getRootLevelPendingNode n = .ok (none, { b with defensiveReturns := k })) :
    b.tryPushRootLevelNode n route = .ok (false, { b with defensiveReturns := k }) := by
  rw [tryPushRootLevelNode, h]
  rfl

theorem WellRooted.relinked (h : b.WellRooted) (n : NodeId) :
    ∃ b', b.tryCorrectRoot n = .ok b' ∧ b.Relinked b' := by
  obtain ⟨b', hOk, -, hStays, hMoves⟩ := h.tryCorrectRoot n
  refine ⟨b', hOk, ?_⟩
  cases hRoot : b.getRoot n with
  | none =>
    rw [hStays hRoot]
    exact .refl b
  | some r =>
    obtain ⟨passed, x, hMoves⟩ := hMoves r hRoot
    exact hMoves.relinked

theorem tryPushRootLevelNode_eq (h : b.WellRooted) (hRoot : b.getRoot n = some r)
    (hParent : (b.node n).parent = some p) (hApart : p ≠ r)
    (hChildren : (b.node r).children = y :: s :: others) (route : Route) :
    ((b.node s).state ≠ .unused ∧
      b.tryPushRootLevelNode n route = .error .pushOfConsumedNode) ∨
    ((b.node s).state = .unused ∧ ∃ picks b₁,
      Balancer.tryCorrectRoot { b.pruned s with picks } n = .ok b₁ ∧
      (b₁.node s).unlinked = (b.node s).unlinked ∧
      b.tryPushRootLevelNode n route = (b₁.delegateOrDiscard s route).map fun b => (true, b)) := by
  obtain ⟨picks, hPick⟩ := getRootLevelPendingNode_eq hRoot hParent hApart hChildren
  have hNode : ((b.pruned s).node s).unlinked = (b.node s).unlinked := relinked_pruned.node s
  have hState : ((b.pruned s).node s).state = (b.node s).state := relinked_pruned.state s
  have h₀ : WellRooted { b.pruned s with picks } :=
    (h.pruned s).settle ⟨fun _ => rfl, rfl, rfl⟩
  obtain ⟨b₁, hCorrect, hRelinked⟩ := h₀.relinked n
  rw [tryPushRootLevelNode, hPick]
  change (_ ∧ (if ((b.pruned s).node s).isConsumed = true then _ else _) = _) ∨
    (_ ∧ ∃ picks b₁, _ ∧ _ ∧ (if ((b.pruned s).node s).isConsumed = true then _ else _) = _)
  rw [NodeCore.isConsumed, hState]
  obtain hUnused | hUsed := eq_or_ne (b.node s).state .unused
  · refine .inr ⟨hUnused, picks, b₁, hCorrect, (hRelinked.node s).trans hNode, ?_⟩
    rw [if_neg (by simp [hUnused]), hCorrect]
    change (b₁.delegateOrDiscard s route >>= fun b => pure (true, b)) = _
    cases b₁.delegateOrDiscard s route <;> rfl
  · refine .inl ⟨hUsed, ?_⟩
    rw [if_pos (bne_iff_ne.mpr hUsed)]
    rfl

theorem Exposed.congr (h : b.Exposed n r p) (hNode : b'.node = b.node)
    (hRoots : b'.roots = b.roots) : b'.Exposed n r p := by
  have hLeads : b'.Leads r p := h.leads.congr fun m _ _ => by
    rw [hNode]
    exact ⟨rfl, fun _ _ hw => hw⟩
  have hSeveral := h.several
  have hOnly := h.only
  have hParent := h.parent
  rw [← hNode] at hSeveral hOnly hParent
  exact ⟨(getRoot_congr (by rw [hNode]) hRoots).trans h.root, hParent, h.apart, hSeveral, hLeads,
    hOnly⟩

theorem Unrecognised.congr (h : b.Unrecognised n) (hNode : b'.node = b.node)
    (hRoots : b'.roots = b.roots) : b'.Unrecognised n := by
  have hRoot : b'.getRoot n = b.getRoot n := getRoot_congr (by rw [hNode]) hRoots
  rw [Unrecognised, hNode, hRoot]
  obtain h | ⟨hMany, r, p, hExposed⟩ := h
  · exact .inl h
  · exact .inr ⟨hMany, r, p, hExposed.congr hNode hRoots⟩

theorem Recognises.congr (h : b.Recognises n) (hNode : b'.node = b.node)
    (hRoots : b'.roots = b.roots) : b'.Recognises n := by
  intro hState hn
  rw [hNode] at hState
  exact h hState (hn.congr hNode.symm hRoots.symm)

theorem WellRooted.pruneAndFix (h : b.WellRooted) (hn : ¬ b.Unrecognised n) :
    ∃ b', b.pruneAndFixParentRootIfNeeded n = .ok b' := by
  rw [pruneAndFixParentRootIfNeeded]
  split
  · exact ⟨b, rfl⟩
  · rename_i hNot
    rw [prune_eq]
    cases hParent : (b.node n).parent with
    | none =>
      refine absurd (.inl ⟨hParent, fun hLeaf => hNot ⟨hLeaf.1, ?_⟩⟩) hn
      rw [NodeCore.childrenCount, hLeaf.2]
      rfl
    | some p =>
      obtain ⟨b', hOk, -⟩ := (h.pruned n).tryCorrectRoot p
      exact ⟨b', hOk⟩

/-- The end of the loop, when no node at the root level is left. -/
def sendItself (b : Balancer) (n : NodeId) (route : Route) : Except Throw (Bool × Balancer) :=
  if (b.node n).isConsumed then .error .submittedNodeConsumed
  else do
    let b ← b.pruneAndFixParentRootIfNeeded n
    let b ← b.delegateOrDiscard n route
    return (true, b)

theorem sendLoop_succ (n : NodeId) (route : Route) (fuel : ℕ) (b : Balancer) :
    sendLoop n route (fuel + 1) b =
      if (!b.answers 0) = true then .ok (false, b.ask.2)
      else if (!b.answers 1) = true then .ok (false, b.ask.2.ask.2.reject route)
      else b.ask.2.ask.2.tryPushRootLevelNode n route >>= fun x =>
        if x.1 = true then sendLoop n route fuel x.2 else x.2.sendItself n route := by
  rw [sendLoop]
  change (if (!b.answers 0) = true then _ else if (!b.answers 1) = true then _ else
    b.ask.2.ask.2.tryPushRootLevelNode n route >>= _) = _
  cases b.ask.2.ask.2.tryPushRootLevelNode n route with
  | error e => rfl
  | ok x =>
    obtain ⟨pushed, b₁⟩ := x
    cases pushed <;> rfl

theorem sendItself_ne_nullNode (h : b.WellRooted) (hn : b.Recognises n) (route : Route) :
    b.sendItself n route ≠ .error .nullNode := by
  rw [sendItself]
  split
  · rintro ⟨⟩
  · rename_i hConsumed
    have hState : (b.node n).state = .unused := by
      rw [NodeCore.isConsumed] at hConsumed
      simpa using hConsumed
    obtain ⟨b₂, hFix⟩ := h.pruneAndFix (hn hState)
    rw [hFix]
    change (b₂.delegateOrDiscard n route >>= fun b => pure (true, b)) ≠ _
    exact bind_ne_error (delegateOrDiscard_ne_nullNode _ _ _) (by rintro _ _ ⟨⟩)

/-- One turn of the loop keeps `n` recognised, and does not come across a null node. -/
theorem tryPushRootLevelNode_recognises (h : b.WellRooted) (hn : b.Recognises n) (route : Route) :
    b.tryPushRootLevelNode n route ≠ .error .nullNode ∧
      ∀ x, b.tryPushRootLevelNode n route = .ok x → x.2.WellRooted ∧ x.2.Recognises n := by
  rcases getRootLevelPendingNode_cases b n with
    ⟨k, hNone⟩ | ⟨r, p, y, s, others, hRoot, hParent, hApart, hChildren⟩
  · rw [tryPushRootLevelNode_none hNone]
    refine ⟨(by rintro ⟨⟩), ?_⟩
    rintro _ ⟨⟩
    exact ⟨h.settle ⟨fun _ => rfl, rfl, rfl⟩, hn.congr rfl rfl⟩
  · rcases tryPushRootLevelNode_eq h hRoot hParent hApart hChildren route with
      ⟨-, hPush⟩ | ⟨hState, picks, b₁, hCorrect, hSame, hPush⟩
    · rw [hPush]
      exact ⟨(by rintro ⟨⟩), (by rintro _ ⟨⟩)⟩
    · rw [hPush]
      cases hDelegate : b₁.delegateOrDiscard s route with
      | error e =>
        refine ⟨?_, (by rintro _ ⟨⟩)⟩
        rintro ⟨⟩
        exact delegateOrDiscard_ne_nullNode _ _ _ hDelegate
      | ok b₂ =>
        refine ⟨(by rintro ⟨⟩), ?_⟩
        rintro _ ⟨⟩
        have hState₁ : (b₁.node s).state = .unused := (congrArg NodeCore.state hSame).trans hState
        have hDeliverable : (b.node s).Deliverable := by
          rw [← deliverable_unlinked, ← hSame, deliverable_unlinked]
          exact deliverable_of_ok hState₁ hDelegate
        obtain ⟨passed, x, hTurn⟩ := h.turn hRoot hParent hApart hChildren hCorrect
          (Touches.delegateOrDiscard hDelegate)
        refine ⟨hTurn.rooted, fun hState₂ hUn => ?_⟩
        have hns : n ≠ s := by
          rintro rfl
          exact hApart (Option.some.inj (hParent.symm.trans (h.second hChildren).1))
        exact hn ((congrArg NodeCore.state (hTurn.core n hns)).symm.trans hState₂)
          ((hTurn.unrecognised_iff h hChildren hRoot hParent hApart hDeliverable).mp hUn)

/-- The loop does not come across a null node where `n` will be recognised, and leaves `n` so
when it gives up. -/
theorem sendLoop_recognises (h : b.WellRooted) (hn : b.Recognises n) (route : Route) (fuel : ℕ) :
    sendLoop n route fuel b ≠ .error .nullNode ∧
      ∀ b', sendLoop n route fuel b = .ok (false, b') → b'.Recognises n := by
  induction fuel generalizing b with
  | zero => exact ⟨(by rintro ⟨⟩), (by rintro _ ⟨⟩)⟩
  | succ fuel ih =>
    rw [sendLoop_succ]
    split
    · refine ⟨(by rintro ⟨⟩), ?_⟩
      rintro _ ⟨⟩
      exact hn.congr rfl rfl
    · split
      · refine ⟨(by rintro ⟨⟩), ?_⟩
        rintro _ ⟨⟩
        cases route <;> exact hn.congr rfl rfl
      · have h₀ : b.ask.2.ask.2.WellRooted := h.settle ⟨fun _ => rfl, rfl, rfl⟩
        obtain ⟨hPush, hKeeps⟩ :=
          tryPushRootLevelNode_recognises h₀ (hn.congr rfl rfl) route
        constructor
        · refine bind_ne_error hPush fun x hx => ?_
          obtain ⟨hx, hnx⟩ := hKeeps x hx
          split
          · exact (ih hx hnx).1
          · exact sendItself_ne_nullNode hx hnx route
        · intro b' hOk
          obtain ⟨x, hx, hOk⟩ := bind_ok hOk
          obtain ⟨hx, hnx⟩ := hKeeps x hx
          split at hOk
          · exact (ih hx hnx).2 b' hOk
          · rw [sendItself] at hOk
            split at hOk
            · cases hOk
            · obtain ⟨b₁, -, hOk⟩ := bind_ok hOk
              obtain ⟨b₂, -, hOk⟩ := bind_ok hOk
              cases hOk

/-- How many nodes have a parent. -/
def held (b : Balancer) : ℕ :=
  ((Finset.range (b.uniqueIdCounter + 1)).filter fun m => (b.node m).parent ≠ none).card

theorem held_le (hr : b.Created r) (hOrphan : (b.node r).parent = none) :
    b.held < b.uniqueIdCounter + 1 := by
  rw [held]
  conv_rhs => rw [← Finset.card_range (b.uniqueIdCounter + 1)]
  refine Finset.card_lt_card (Finset.filter_ssubset.mpr ⟨r, ?_, fun h => h hOrphan⟩)
  exact Finset.mem_range.mpr (Nat.lt_succ_of_le hr.2)

theorem Turn.held_lt (hTurn : b.Turn b₂ n r y s others passed x) (h : b.WellRooted)
    (hChildren : (b.node r).children = y :: s :: others) : b₂.held < b.held := by
  have hParent := (h.second hChildren).1
  rw [held, held, hTurn.counter]
  refine Finset.card_lt_card (Finset.ssubset_iff_of_subset (fun m hm => ?_) |>.mpr ⟨s, ?_, ?_⟩)
  · obtain ⟨hRange, hm⟩ := Finset.mem_filter.mp hm
    exact Finset.mem_filter.mpr ⟨hRange, fun hNone => hm (hTurn.parents m hNone)⟩
  · refine Finset.mem_filter.mpr ⟨Finset.mem_range.mpr (Nat.lt_succ_of_le ?_), ?_⟩
    · exact (h.parent s r hParent).1
    · rw [hParent]
      rintro ⟨⟩
  · exact fun hs => (Finset.mem_filter.mp hs).2 hTurn.freed

/-- Where `n` is not recognised, a thread that always gets the lock and finds the pool free comes
across the null node. -/
theorem sendLoop_nullNode (h : b.WellRooted) (hState : (b.node n).state = .unused)
    (hn : b.Unrecognised n) (hAll : b.answers = fun _ => true) {fuel : ℕ} (hFuel : b.held < fuel) :
    sendLoop n .locally fuel b = .error .nullNode := by
  induction fuel generalizing b with
  | zero => cases hFuel
  | succ fuel ih =>
    have hSame : b.ask.2.ask.2 = b := by
      rw [ask, ask]
      dsimp only
      cases b
      cases hAll
      rfl
    rw [sendLoop_succ, hSame, hAll, if_neg (by decide), if_neg (by decide)]
    obtain ⟨hNone, hLost⟩ | ⟨hMany, r, p, hExposed⟩ := hn
    · have hPush : b.tryPushRootLevelNode n .locally = .ok (false, b) := by
        refine tryPushRootLevelNode_none (k := b.defensiveReturns) ?_
        rw [getRootLevelPendingNode, if_pos hNone]
      have hNotLeaf : ¬ (b.getRoot n = some n ∧ (b.node n).childrenCount = 0) :=
        fun hLeaf => hLost ⟨hLeaf.1, List.length_eq_zero_iff.mp hLeaf.2⟩
      rw [hPush]
      change b.sendItself n .locally = _
      rw [sendItself, if_neg (by simp [NodeCore.isConsumed, hState]),
        pruneAndFixParentRootIfNeeded, if_neg hNotLeaf, hNone, prune_eq]
      rfl
    · cases hExposed.leads with
      | here => exact absurd rfl hExposed.apart
      | @down _ y _ rest hChildren hOthers hLeads =>
        cases rest with
        | nil =>
          have hSeveral := hExposed.several
          rw [hChildren] at hSeveral
          exact absurd hSeveral (by simp)
        | cons s others =>
          have hDeliverable := hOthers s List.mem_cons_self
          have hns : n ≠ s := by
            rintro rfl
            exact hExposed.apart
              (Option.some.inj (hExposed.parent.symm.trans (h.second hChildren).1))
          rcases tryPushRootLevelNode_eq h hExposed.root hExposed.parent hExposed.apart hChildren
            .locally with ⟨hUsed, -⟩ | ⟨-, picks, b₁, hCorrect, hCore, hPush⟩
          · exact absurd hDeliverable.state hUsed
          · have hDeliverable₁ : (b₁.node s).Deliverable := by
              rw [← deliverable_unlinked, hCore, deliverable_unlinked]
              exact hDeliverable
            obtain ⟨b₂, hDelegate⟩ := delegateOrDiscard_locally hDeliverable₁
            obtain ⟨passed, x, hTurn⟩ := h.turn hExposed.root hExposed.parent hExposed.apart
              hChildren hCorrect (Touches.delegateOrDiscard hDelegate)
            rw [hPush, hDelegate]
            refine ih hTurn.rooted
              ((congrArg NodeCore.state (hTurn.core n hns)).trans hState) ?_
              (hTurn.answers.trans hAll)
              (Nat.lt_of_lt_of_le (hTurn.held_lt h hChildren) (Nat.le_of_lt_succ hFuel))
            exact (hTurn.unrecognised_iff h hChildren hExposed.root hExposed.parent hExposed.apart
              hDeliverable).mpr (.inr ⟨hMany, r, p, hExposed⟩)

/-! ## Requests -/

theorem pruneAndCorrect_ne_nullNode (h : b.WellRooted) (n : NodeId) :
    b.pruneAndCorrectRootAfterForward n ≠ .error .nullNode := by
  rw [pruneAndCorrectRootAfterForward]
  split
  · rw [prune_eq]
    rintro ⟨⟩
  · rename_i p _
    obtain ⟨b', hOk, -⟩ := (h.pruned n).tryCorrectRoot p
    rw [prune_eq]
    change (b.pruned n).tryCorrectRoot p ≠ _
    rw [hOk]
    rintro ⟨⟩

theorem map_ne_error {ε α β : Type} {x : Except ε α} {f : α → β} {e : ε} (hx : x ≠ .error e) :
    x.map f ≠ .error e := by
  cases x with
  | error e' => exact fun h => hx (congrArg Except.error (Except.error.inj h))
  | ok a => rintro ⟨⟩

theorem startForward_ne_nullNode (h : b.Built) (n : NodeId) :
    b.startForward n ≠ .error .nullNode := by
  have hAnswer : (b.answer n).Built := h.settle (Touches.answer b n).settles
  rw [startForward, shouldBranch_eq]
  split
  · cases (b.node n).shouldBranch.1 with
    | true => exact map_ne_error (enter_ne_nullNode _ _)
    | false =>
      have hSettled : ((b.answer n).settle n .discarded).Built := hAnswer.of_same rfl rfl rfl
      exact map_ne_error (pruneAndCorrect_ne_nullNode hSettled.wellRooted n)
  · exact map_ne_error (pruneAndCorrect_ne_nullNode h.wellRooted n)

theorem startLocally_ne_nullNode (h : b.Built) (hn : b.Recognises n) :
    b.startLocally n ≠ .error .nullNode := by
  refine bind_ne_error (sendLoop_recognises h.wellRooted hn .locally _).1 fun x hx => ?_
  obtain ⟨sent, b₁⟩ := x
  cases sent with
  | true => rintro ⟨⟩
  | false => exact startForward_ne_nullNode (h.send hx) n

theorem startRemotely_eq {runnableId : ℤ} (hWorker : b.schedulerWorker = true) :
    b.startRemotely n runnableId = b.send n (.remotely runnableId) >>= fun x =>
      if x.1 = true then .ok (none, x.2) else x.2.startLocally n := by
  rw [startRemotely, hWorker]
  rfl

theorem startRemotely_ne_nullNode (h : b.Built) (runnableId : ℤ)
    (hn : b.schedulerWorker = true → b.Recognises n) :
    b.startRemotely n runnableId ≠ .error .nullNode := by
  cases hWorker : b.schedulerWorker with
  | false =>
    rw [startRemotely, hWorker]
    rintro ⟨⟩
  | true =>
    obtain ⟨hSend, hKeeps⟩ := sendLoop_recognises h.wellRooted (hn hWorker) (.remotely runnableId)
      (b.uniqueIdCounter + 1)
    rw [startRemotely_eq hWorker]
    refine bind_ne_error hSend fun x hx => ?_
    obtain ⟨sent, b₁⟩ := x
    cases sent with
    | true => rintro ⟨⟩
    | false => exact startLocally_ne_nullNode (h.send hx) (hKeeps b₁ hx)

/-- A submission that looks for a free thread or process first. -/
def Sends (b : Balancer) : Submission → Prop
  | .forward => False
  | .tryLocalSubmit => True
  | .tryRemoteSubmit _ => b.schedulerWorker = true

theorem start_ne_nullNode {submission : Submission} (h : b.Built)
    (hn : b.Sends submission → b.Recognises n) : b.start n submission ≠ .error .nullNode := by
  cases submission with
  | forward => exact startForward_ne_nullNode h n
  | tryLocalSubmit => exact startLocally_ne_nullNode h (hn trivial)
  | tryRemoteSubmit runnableId => exact startRemotely_ne_nullNode h runnableId hn

theorem setParent_ne_nullNode (b : Balancer) (n : NodeId) (parent : Option NodeId) :
    b.setParent n parent ≠ .error .nullNode := by
  rw [setParent]
  split
  · rintro ⟨⟩
  · split
    · rintro ⟨⟩
    · split
      · rintro ⟨⟩
      · split
        · rintro ⟨⟩
        · dsimp only
          split <;> rintro ⟨⟩

theorem create_ne_nullNode (b : Balancer) (t : ThreadId) (parent : Option NodeId)
    (core : NodeCore Call) : b.create t parent core ≠ .error .nullNode := by
  cases parent with
  | none => rintro ⟨⟩
  | some p => exact map_ne_error (setParent_ne_nullNode _ _ _)

theorem Unrecognised.held_lt (hn : b.Unrecognised n) (h : b.WellRooted) (hCreated : b.Created n) :
    b.held < b.uniqueIdCounter + 1 := by
  obtain ⟨hNone, -⟩ | ⟨-, r, p, hExposed⟩ := hn
  · exact held_le hCreated hNone
  · obtain ⟨hRoot, hOrphan, -⟩ := h.slot _ _ (h.slot_of_getRoot hExposed.root)
    exact held_le hRoot hOrphan

theorem startLocally_nullNode (h : b.WellRooted) (hCreated : b.Created n)
    (hState : (b.node n).state = .unused) (hn : b.Unrecognised n)
    (hAll : b.answers = fun _ => true) : b.startLocally n = .error .nullNode := by
  rw [startLocally, send, sendLoop_nullNode h hState hn hAll (hn.held_lt h hCreated)]
  rfl

theorem start_nullNode {submission : Submission} (h : b.WellRooted) (hCreated : b.Created n)
    (hSends : b.Sends submission) (hState : (b.node n).state = .unused) (hn : b.Unrecognised n) :
    ∃ answers, start { b with answers } n submission = .error .nullNode := by
  have hAlways : startLocally { b with answers := fun _ => true } n = .error .nullNode :=
    startLocally_nullNode (h.settle ⟨fun _ => rfl, rfl, rfl⟩) hCreated hState (hn.congr rfl rfl) rfl
  cases submission with
  | forward => cases hSends
  | tryLocalSubmit => exact ⟨fun _ => true, hAlways⟩
  | tryRemoteSubmit runnableId =>
    -- the lock is taken from the second time on
    refine ⟨fun i => decide (0 < i), ?_⟩
    change startRemotely { b with answers := fun i => decide (0 < i) } n runnableId = _
    have hShift : (fun i => decide (0 < i + 1)) = fun _ : ℕ => true :=
      funext fun i => decide_eq_true (Nat.succ_pos i)
    have hSend : send { b with answers := fun i => decide (0 < i) } n (.remotely runnableId) =
        .ok (false, { b with answers := fun _ => true }) := by
      rw [← hShift, send, sendLoop_succ]
      rfl
    refine (startRemotely_eq ?_).trans ?_
    · exact hSends
    · rw [hSend]
      exact hAlways

/-- A node that looks for a free thread or process is recognised when it does. -/
def Met (b : Balancer) : Operation → Prop
  | .submit n submission => b.Created n → b.Sends submission → b.Recognises n
  | _ => True

theorem step_ne_nullNode {op : Operation} (h : b.Built) (hMet : b.Met op) :
    submissions.step op b ≠ .raised .nullNode := by
  have hRaised : ∀ {x : Except Throw Balancer}, x ≠ .error .nullNode →
      Outcome.ofExcept x ≠ .raised .nullNode := by
    intro x hx
    cases x with
    | error e => exact fun h => hx (congrArg Except.error (Outcome.raised.inj h))
    | ok b => rintro ⟨⟩
  cases op with
  | create t parent core =>
    simp only [submissions]
    split
    · exact hRaised (map_ne_error (create_ne_nullNode _ _ _ _))
    · rintro ⟨⟩
  | submit n submission =>
    simp only [submissions]
    split
    · rename_i hCreated
      exact hRaised (map_ne_error (start_ne_nullNode h (hMet hCreated)))
    · rintro ⟨⟩
  | finish n =>
    simp only [submissions]
    split
    · have hLeave : (b.leave n).Built := h.settle (Touches.leave b n).settles
      exact hRaised (pruneAndCorrect_ne_nullNode hLeave.wellRooted n)
    · rintro ⟨⟩

theorem step_nullNode {op : Operation} (h : b.WellRooted) (hNot : ¬ b.Met op) :
    ∃ answers, submissions.step op { b with answers } = .raised .nullNode := by
  cases op with
  | create t parent core => exact absurd trivial hNot
  | finish n => exact absurd trivial hNot
  | submit n submission =>
    simp only [Met, Recognises, not_forall, not_not] at hNot
    obtain ⟨hCreated, hSends, hState, hn⟩ := hNot
    obtain ⟨answers, hStart⟩ := start_nullNode h hCreated hSends hState hn
    refine ⟨answers, ?_⟩
    have hCreated' : Created { b with answers } n := hCreated
    simp only [submissions]
    rw [if_pos hCreated', hStart]
    rfl

/-- A run comes across no null node when every node that looks for a free thread or process is
recognised. From any state that the program can reach, a node that is not recognised meets one
under some answers of the lock, the pool and the channel. -/
theorem noNullNode (hInitial : submissions.initial b) (ops : List Operation) :
    (submissions.Obeys Met ops b → ¬ submissions.Raises .nullNode ops b) ∧
      ∀ b', submissions.run ops b = some b' → ∀ op,
        (∀ answers, submissions.step op { b' with answers } ≠ .raised .nullNode) ↔ b'.Met op := by
  have hReachable : submissions.Reachable b := .start hInitial
  constructor
  · exact Machine.not_raises_of_obeys (J := fun b => submissions.Reachable b)
      (fun b op b' hb hStep => hb.tail trivial hStep)
      (fun b op hb hMet => step_ne_nullNode (.of_reachable hb) hMet) hReachable
  · intro b' hRun op
    have hBuilt := Built.of_reachable (hReachable.run hRun)
    constructor
    · intro hNever
      by_contra hNot
      obtain ⟨answers, hRaised⟩ := step_nullNode hBuilt.wellRooted hNot
      exact hNever answers hRaised
    · intro hMet answers
      refine step_ne_nullNode (hBuilt.of_same rfl rfl rfl) ?_
      cases op with
      | create t parent core => trivial
      | finish n => trivial
      | submit n submission =>
        exact fun hCreated hSends => (hMet hCreated hSends).congr rfl rfl

/-- The first child of a node is submitted, and the other one after it. -/
def twoChildren : List Operation :=
  [.create 0 none leafCore, .create 0 (some 1) leafCore, .create 0 (some 1) leafCore,
    .submit 2 .tryLocalSubmit]

theorem noNullNode_twoChildren : ¬ submissions.Raises .nullNode twoChildren secondLock := by
  refine (noNullNode ⟨_, false, rfl⟩ twoChildren).1 ?_
  refine ⟨trivial, fun b hb => ?_⟩
  cases hb
  refine ⟨trivial, fun b hb => ?_⟩
  cases hb
  refine ⟨trivial, fun b hb => ?_⟩
  cases hb
  refine ⟨fun _ _ _ hn => ?_, fun _ _ => trivial⟩
  obtain ⟨hNone, -⟩ | ⟨hMany, -⟩ := hn
  · cases hNone
  · exact hMany rfl

/-- Two nodes without a parent on one thread, and then the first of them is submitted. -/
def twoSeeds : List Operation :=
  [.create 0 none leafCore, .create 0 none leafCore, .submit 1 .tryLocalSubmit]

def alwaysFree : Balancer := { answers := fun _ => true }

theorem noNullNode_twoSeeds : submissions.initial alwaysFree ∧
    submissions.Raises .nullNode twoSeeds alwaysFree :=
  ⟨⟨_, false, rfl⟩, .inr ⟨_, rfl, .inr ⟨_, rfl, .inl rfl⟩⟩⟩

end Balancer

end Gempba
