import Gempba.LoadBalancing.Process

/-!
# Links that stay consistent, and nodes taken at the root level

Every child names its parent, whatever the program does with its nodes. A
node that was taken at the root level is therefore out of reach: it stays
unlinked and consumed for the rest of the run.
-/

namespace Gempba

set_option autoImplicit false

open NodeCore

theorem ensureArgsInitialized_links {c m : NodeCore Call} (h : c.ensureArgsInitialized = .ok m) :
    m.links = c.links ∧ m.state = c.state := by
  rw [ensureArgsInitialized] at h
  split at h
  · cases h
  · split at h
    · cases h
    · cases h
      exact ⟨rfl, rfl⟩
  · cases h
    exact ⟨rfl, rfl⟩

theorem shouldBranch_links (c : NodeCore Call) :
    c.shouldBranch.2.links = c.links ∧ c.shouldBranch.2.state = c.state := by
  rw [NodeCore.shouldBranch]
  split
  · exact ⟨rfl, rfl⟩
  · split
    · exact ⟨rfl, rfl⟩
    · exact ⟨rfl, rfl⟩
    · exact ⟨rfl, rfl⟩
    · split
      · split <;> exact ⟨rfl, rfl⟩
      · exact ⟨rfl, rfl⟩

namespace Balancer

/-- `fresh` may have been taken at the root level without being consumed yet. -/
structure Consistent (fresh : Option NodeId) (b : Balancer) : Prop where
  child : ∀ m, ∀ n ∈ (b.node m).children, (b.node n).parent = some m
  unborn : ∀ n, b.uniqueIdCounter < n → (b.node n).parent = none
  picked : ∀ p ∈ b.picks, p.node ≤ b.uniqueIdCounter ∧ (b.node p.node).root = none ∧
    (b.node p.node).parent = none ∧ (fresh = some p.node ∨ (b.node p.node).state ≠ .unused)

variable {b b' : Balancer} {n m p : NodeId} {t : ThreadId} {fresh : Option NodeId} {c : Call}
  {cs : List Call} {route : Route} {body : Body} {submission : Submission}

namespace Consistent

theorem initial (h : process.initial b) : b.Consistent none := by
  obtain ⟨answers, worker, rfl⟩ := h
  exact ⟨(by rintro _ _ ⟨⟩), fun _ _ => rfl, (by rintro _ ⟨⟩)⟩

theorem congr (h : b.Consistent fresh) (hLinks : ∀ m, (b'.node m).links = (b.node m).links)
    (hCounter : b'.uniqueIdCounter = b.uniqueIdCounter) (hPicks : b'.picks = b.picks)
    {fresh' : Option NodeId} (hState : ∀ m, fresh = some m ∨ (b.node m).state ≠ .unused →
      fresh' = some m ∨ (b'.node m).state ≠ .unused) : b'.Consistent fresh' := by
  have hParent : ∀ m, (b'.node m).parent = (b.node m).parent :=
    fun m => congrArg Links.parent (hLinks m)
  refine ⟨?_, ?_, ?_⟩
  · intro m n hn
    rw [hParent]
    apply h.child m n
    rw [← show (b'.node m).children = (b.node m).children from congrArg Links.children (hLinks m)]
    exact hn
  · intro n hn
    rw [hParent]
    rw [hCounter] at hn
    exact h.unborn n hn
  · intro p hp
    rw [hPicks] at hp
    obtain ⟨hCreated, hRoot, hPicked, hConsumed⟩ := h.picked p hp
    rw [hCounter, hParent]
    exact ⟨hCreated, (congrArg Links.root (hLinks p.node)).trans hRoot, hPicked,
      hState p.node hConsumed⟩

theorem modify (h : b.Consistent fresh) {f : NodeCore Call → NodeCore Call}
    (hLinks : (f (b.node n)).links = (b.node n).links)
    (hState : (b.node n).state ≠ .unused → (f (b.node n)).state ≠ .unused) :
    (b.modify n f).Consistent fresh := by
  refine h.congr ?_ ?_ ?_ ?_
  · intro m
    obtain rfl | hmn := eq_or_ne m n
    · rw [modify_node_self, hLinks]
    · rw [modify_node_of_ne f hmn]
  · rfl
  · rfl
  · rintro m (hFresh | hm)
    · exact .inl hFresh
    · refine .inr ?_
      obtain rfl | hmn := eq_or_ne m n
      · rw [modify_node_self]
        exact hState hm
      · rw [modify_node_of_ne f hmn]
        exact hm

theorem relink (h : b.Consistent fresh) (hR : b.Relinked b')
    (hChild : ∀ m, ∀ n ∈ (b'.node m).children, (b'.node n).parent = some m)
    (hParent : ∀ n, (b.node n).parent = none → (b'.node n).parent = none) :
    b'.Consistent fresh := by
  refine ⟨hChild, ?_, ?_⟩
  · intro n hn
    rw [hR.uniqueIdCounter] at hn
    exact hParent n (h.unborn n hn)
  · intro p hp
    rw [hR.field (fun c => c.picks) fun _ _ _ => rfl] at hp
    obtain ⟨hCreated, hRoot, hPicked, hConsumed⟩ := h.picked p hp
    rw [hR.uniqueIdCounter, hR.state]
    exact ⟨hCreated, hR.root _ hRoot, hParent _ hPicked, hConsumed⟩

theorem parent_pruned (hmn : m ≠ n) : ((b.pruned n).node m).parent = (b.node m).parent := by
  obtain hp | hp := eq_or_ne (b.node n).parent (some m)
  · rw [pruned_node_parent hp hmn]
  · rw [pruned_node_of_ne hmn hp]

theorem mem_children_pruned {x : NodeId} (hx : x ∈ ((b.pruned n).node m).children) :
    m ≠ n ∧ x ∈ (b.node m).children ∧ ((b.node n).parent = some m → x ≠ n) := by
  have hmn : m ≠ n := by
    rintro rfl
    rw [pruned_node_self] at hx
    cases hx
  obtain hp | hp := eq_or_ne (b.node n).parent (some m)
  · rw [pruned_node_parent hp hmn] at hx
    obtain ⟨hx, hxn⟩ := List.mem_filter.mp hx
    exact ⟨hmn, hx, fun _ => bne_iff_ne.mp hxn⟩
  · rw [pruned_node_of_ne hmn hp] at hx
    exact ⟨hmn, hx, fun h => absurd h hp⟩

theorem pruned (h : b.Consistent fresh) (n : NodeId) : (b.pruned n).Consistent fresh := by
  refine h.relink relinked_pruned ?_ ?_
  · intro m x hx
    obtain ⟨-, hx, hxn⟩ := mem_children_pruned hx
    have hParent := h.child m x hx
    have hxn : x ≠ n := by
      rintro rfl
      exact hxn hParent rfl
    rw [parent_pruned hxn]
    exact hParent
  · intro m hm
    obtain rfl | hmn := eq_or_ne m n
    · rw [pruned_node_self]
    · rw [parent_pruned hmn]
      exact hm

theorem lowered (h : b.Consistent fresh) {root y : NodeId}
    (hChildren : (b.node root).children = [y]) :
    ((b.rooted y).pruned root).Consistent fresh := by
  have hy : (b.node y).parent = some root := by
    apply h.child
    rw [hChildren]
    exact List.mem_singleton_self y
  have hParent : ∀ m, m ≠ y → ((b.rooted y).node m).parent = (b.node m).parent :=
    fun m hm => congrArg NodeCore.parent (modify_node_of_ne _ hm)
  have hSelf : ((b.rooted y).node y).parent = none :=
    congrArg NodeCore.parent (modify_node_self _)
  have hSame : ∀ m, ((b.rooted y).node m).children = (b.node m).children := by
    intro m
    obtain rfl | hm := eq_or_ne m y
    · exact (congrArg NodeCore.children (modify_node_self _)).trans rfl
    · exact congrArg NodeCore.children (modify_node_of_ne _ hm)
  refine h.relink (relinked_rooted.trans relinked_pruned) ?_ ?_
  · intro m x hx
    obtain ⟨hm, hMem, hNe⟩ := mem_children_pruned hx
    rw [hSame] at hMem
    have hxm := h.child m x hMem
    have hxy : x ≠ y := by
      rintro rfl
      exact hm (Option.some.inj (hxm.symm.trans hy))
    have hxRoot : x ≠ root := by
      rintro rfl
      exact hNe ((hParent x hxy).trans hxm) rfl
    rw [parent_pruned hxRoot, hParent x hxy]
    exact hxm
  · intro m hm
    obtain rfl | hmRoot := eq_or_ne m root
    · rw [pruned_node_self]
    · rw [parent_pruned hmRoot]
      obtain rfl | hmy := eq_or_ne m y
      · exact hSelf
      · rw [hParent m hmy]
        exact hm

theorem lowerRoot (h : b.Consistent fresh) {root : NodeId} {k : ℕ}
    (hOk : Balancer.lowerRoot k root n b = .ok b') : b'.Consistent fresh := by
  induction k generalizing root b with
  | zero => cases hOk
  | succ k ih =>
    cases hChildren : (b.node root).children with
    | nil =>
      rw [lowerRoot_of_ne (by simp [hChildren])] at hOk
      cases hOk
      exact h
    | cons y ys =>
      cases ys with
      | nil =>
        rw [lowerRoot_single hChildren] at hOk
        have h' := h.lowered hChildren
        split at hOk
        · cases hOk
          exact h'
        · exact ih h' hOk
      | cons z ys =>
        rw [lowerRoot_of_ne (by simp [hChildren])] at hOk
        cases hOk
        exact h

theorem tryCorrectRoot (h : b.Consistent fresh) (hOk : b.tryCorrectRoot n = .ok b') :
    b'.Consistent fresh := by
  rw [Balancer.tryCorrectRoot] at hOk
  split at hOk
  · cases hOk
    exact h
  · split at hOk
    · cases hOk
      exact h
    · split at hOk
      · cases hOk
        exact h
      · exact h.lowerRoot hOk

theorem pruneAndCorrectRootAfterForward (h : b.Consistent fresh)
    (hOk : b.pruneAndCorrectRootAfterForward n = .ok b') : b'.Consistent fresh := by
  rw [Balancer.pruneAndCorrectRootAfterForward] at hOk
  split at hOk
  · rw [prune_eq] at hOk
    cases hOk
    exact h.pruned n
  · rw [prune_eq] at hOk
    exact (h.pruned n).tryCorrectRoot hOk

theorem pruneAndFixParentRootIfNeeded (h : b.Consistent fresh)
    (hOk : b.pruneAndFixParentRootIfNeeded n = .ok b') : b'.Consistent fresh := by
  rw [Balancer.pruneAndFixParentRootIfNeeded] at hOk
  split at hOk
  · cases hOk
    exact h
  · rw [prune_eq] at hOk
    cases hParent : (b.node n).parent with
    | none =>
      rw [hParent] at hOk
      cases hOk
    | some p =>
      rw [hParent] at hOk
      exact (h.pruned n).tryCorrectRoot hOk

theorem same (h : b.Consistent fresh) (hNode : b'.node = b.node)
    (hCounter : b'.uniqueIdCounter = b.uniqueIdCounter) (hPicks : b'.picks = b.picks) :
    b'.Consistent fresh := by
  refine h.congr ?_ hCounter hPicks ?_
  · intro m
    rw [hNode]
  · intro m hm
    rw [hNode]
    exact hm

theorem consume (h : b.Consistent fresh) (hFresh : ∀ m, fresh = some m → m = n)
    {f : NodeCore Call → NodeCore Call} (hLinks : (f (b.node n)).links = (b.node n).links)
    (hState : (f (b.node n)).state ≠ .unused) : (b.modify n f).Consistent none := by
  refine h.congr ?_ ?_ ?_ ?_
  · intro m
    obtain rfl | hmn := eq_or_ne m n
    · rw [modify_node_self, hLinks]
    · rw [modify_node_of_ne f hmn]
  · rfl
  · rfl
  · intro m hm
    refine .inr ?_
    obtain rfl | hmn := eq_or_ne m n
    · rw [modify_node_self]
      exact hState
    · rw [modify_node_of_ne f hmn]
      obtain hm | hm := hm
      · exact absurd (hFresh m hm) hmn
      · exact hm

theorem answer (h : b.Consistent fresh) (n : NodeId) : (b.answer n).Consistent fresh := by
  obtain ⟨hLinks, hState⟩ := shouldBranch_links (b.node n)
  apply h.modify hLinks
  rw [hState]
  exact id

theorem delegate (h : b.Consistent fresh) (hFresh : ∀ m, fresh = some m → m = n)
    (hOk : b.delegate n route = .ok b') : b'.Consistent none := by
  have hLocally : ∀ {b b' : Balancer}, b.Consistent fresh → b.delegateLocally n = .ok b' →
      b'.Consistent none := by
    intro b b' h hOk
    rw [delegateLocally] at hOk
    split at hOk
    · cases hOk
    obtain ⟨m, hEnsure, hOk⟩ := bind_ok hOk
    cases hOk
    obtain ⟨hLinks, -⟩ := ensureArgsInitialized_links hEnsure
    have hPool : Consistent fresh { b with
        threadRequestCount := b.threadRequestCount + 1
        threadPool := b.threadPool ++ [n] } := h.same rfl rfl rfl
    have hConsumed := hPool.consume (n := n) hFresh
      (f := fun _ => { m with state := .pushed }) hLinks (by rintro ⟨⟩)
    exact hConsumed.same rfl rfl rfl
  have hRemotely : ∀ {b b' : Balancer} {runnableId : ℤ}, b.Consistent fresh →
      b.delegateRemotely n runnableId = .ok b' → b'.Consistent none := by
    intro b b' runnableId h hOk
    rw [delegateRemotely] at hOk
    split at hOk
    · cases hOk
    obtain ⟨m, hEnsure, hOk⟩ := bind_ok hOk
    obtain ⟨-, -, hOk⟩ := bind_ok hOk
    cases hOk
    obtain ⟨hLinks, -⟩ := ensureArgsInitialized_links hEnsure
    have hConsumed := h.consume hFresh
      (f := fun _ => { m with state := .sentToAnotherProcess }) hLinks (by rintro ⟨⟩)
    exact hConsumed.same rfl rfl rfl
  have hHandOut : (b.handOut n).Consistent fresh := h.same rfl rfl rfl
  cases route with
  | locally => exact hLocally hHandOut hOk
  | remotely runnableId => exact hRemotely hHandOut hOk

theorem delegateOrDiscard (h : b.Consistent fresh) (hFresh : ∀ m, fresh = some m → m = n)
    (hOk : b.delegateOrDiscard n route = .ok b') : b'.Consistent none := by
  rw [Balancer.delegateOrDiscard, shouldBranch_eq] at hOk
  have hAnswer := h.answer n
  cases hBranches : (b.node n).shouldBranch.1 with
  | true =>
    rw [hBranches] at hOk
    exact hAnswer.delegate hFresh hOk
  | false =>
    rw [hBranches] at hOk
    cases hOk
    have hConsumed := hAnswer.consume hFresh (f := NodeCore.setState .discarded)
      (links_setState _ _) (by rw [state_setState]; rintro ⟨⟩)
    exact hConsumed.same rfl rfl rfl

/-- The node that is taken has been pruned and is recorded. -/
theorem getRootLevelPendingNode (h : b.Consistent none) {top : Option NodeId}
    (hOk : b.getRootLevelPendingNode n = .ok (top, b')) : b'.Consistent top := by
  rw [Balancer.getRootLevelPendingNode] at hOk
  split at hOk
  · cases hOk
    exact h
  · split at hOk
    · cases hOk
      exact h
    · split at hOk
      · cases hOk
        exact h
      · split at hOk
        · cases hOk
          exact h.same rfl rfl rfl
        · rename_i root _ _
          obtain ⟨second, hSecond, hOk⟩ := bind_ok hOk
          rw [prune_eq] at hOk
          cases hOk
          have hChild : second ∈ (b.node root).children := by
            rw [getSecondLeftmostChild] at hSecond
            split at hSecond
            · rename_i hChildren
              cases hSecond
              rw [hChildren]
              exact List.mem_cons_of_mem _ List.mem_cons_self
            · cases hSecond
          have hCreated : second ≤ b.uniqueIdCounter := by
            refine Nat.le_of_not_lt fun hUnborn => ?_
            have hParent := h.child root second hChild
            rw [h.unborn second hUnborn] at hParent
            cases hParent
          have hPruned := h.pruned second
          refine ⟨hPruned.child, hPruned.unborn, ?_⟩
          intro p hp
          obtain rfl | hp := List.mem_cons.mp hp
          · refine ⟨hCreated, ?_, ?_, .inl rfl⟩
            · exact congrArg NodeCore.root pruned_node_self
            · exact congrArg NodeCore.parent pruned_node_self
          · obtain ⟨hCreated, hRoot, hParent, hConsumed⟩ := hPruned.picked p hp
            refine ⟨hCreated, hRoot, hParent, .inr ?_⟩
            obtain hFresh | hConsumed := hConsumed
            · cases hFresh
            · exact hConsumed

theorem tryPushRootLevelNode (h : b.Consistent none) {pushed : Bool}
    (hOk : b.tryPushRootLevelNode n route = .ok (pushed, b')) : b'.Consistent none := by
  rw [Balancer.tryPushRootLevelNode] at hOk
  obtain ⟨⟨top, b₁⟩, hPick, hOk⟩ := bind_ok hOk
  have h₁ := h.getRootLevelPendingNode hPick
  cases top with
  | none =>
    cases hOk
    exact h₁
  | some top =>
    change (if (b₁.node top).isConsumed = true then _ else _) = _ at hOk
    split at hOk
    · cases hOk
    obtain ⟨b₂, hCorrect, hOk⟩ := bind_ok hOk
    obtain ⟨b₃, hDelegate, hOk⟩ := bind_ok hOk
    cases hOk
    exact (h₁.tryCorrectRoot hCorrect).delegateOrDiscard (fun m hm => (Option.some.inj hm).symm)
      hDelegate

theorem ask (h : b.Consistent fresh) : b.ask.2.Consistent fresh := h.same rfl rfl rfl

theorem reject (h : b.Consistent fresh) (route : Route) : (b.reject route).Consistent fresh := by
  cases route <;> exact h.same rfl rfl rfl

theorem send (h : b.Consistent none) {sent : Bool} (hOk : b.send n route = .ok (sent, b')) :
    b'.Consistent none := by
  rw [Balancer.send] at hOk
  generalize b.uniqueIdCounter + 1 = fuel at hOk
  induction fuel generalizing b with
  | zero => cases hOk
  | succ fuel ih =>
    rw [sendLoop] at hOk
    change (if (!b.ask.1) = true then _ else _) = _ at hOk
    cases hLock : b.ask.1 with
    | false =>
      rw [hLock] at hOk
      cases hOk
      exact h.ask
    | true =>
      rw [hLock] at hOk
      change (if (!b.ask.2.ask.1) = true then _ else _) = _ at hOk
      cases hOpened : b.ask.2.ask.1 with
      | false =>
        rw [hOpened] at hOk
        cases hOk
        exact h.ask.ask.reject route
      | true =>
        rw [hOpened] at hOk
        obtain ⟨⟨pushed, b₁⟩, hPush, hOk⟩ := bind_ok hOk
        have h₁ := h.ask.ask.tryPushRootLevelNode hPush
        cases pushed with
        | true => exact ih h₁ hOk
        | false =>
          change (if (b₁.node n).isConsumed = true then _ else _) = _ at hOk
          split at hOk
          · cases hOk
          · obtain ⟨b₂, hFix, hOk⟩ := bind_ok hOk
            obtain ⟨b₃, hDelegate, hOk⟩ := bind_ok hOk
            cases hOk
            exact (h₁.pruneAndFixParentRootIfNeeded hFix).delegateOrDiscard (by rintro _ ⟨⟩)
              hDelegate

end Consistent

end Balancer

end Gempba
