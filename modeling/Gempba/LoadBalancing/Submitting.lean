import Gempba.LoadBalancing.Activity

/-!
# Submitting a node

The loop of `send` hands over the pending nodes of the root level one by
one and re-roots the tree after each. It ends by handing over the submitted
node itself, or by giving up, and throws in neither case.
-/

namespace Gempba

set_option autoImplicit false

open NodeCore Spine Gempba.Frame

theorem Layered.lt {depth : NodeId → ℕ} {l : Level} {M : List Level} (h : Layered depth (l :: M))
    {n : NodeId} (hn : n ∈ l.2 ++ ids M) : depth l.1 < depth n := by
  induction M generalizing l with
  | nil =>
    rw [ids_nil, List.append_nil] at hn
    rw [h.1 n (List.mem_append_right _ hn)]
    exact Nat.lt_succ_self _
  | cons m M ih =>
    have hm : depth m.1 = depth l.1 + 1 := h.1 m.1 List.mem_cons_self
    obtain hn | hn := List.mem_append.mp hn
    · rw [h.1 n (List.mem_append_right _ hn)]
      exact Nat.lt_succ_self _
    · obtain hn | hn := List.mem_append.mp hn
      · obtain rfl | hn := List.mem_cons.mp hn
        · omega
        · have hLt := ih h.2 (List.mem_append_left _ hn)
          omega
      · have hLt := ih h.2 (List.mem_append_right _ hn)
        omega

namespace Balancer

variable {far wide : Bool} {t : ThreadId} {b b' : Balancer} {G G' F F' S : List Frame}
  {f g x : Frame} {n s y : NodeId} {w : List NodeId} {route : Route} {fate : Fate} {k : ℕ}

theorem Active.resolve (A : Active far wide t b G F w) (hn : n ∈ w)
    (hR : b.Resolves wide b' n fate) (hTree : b.SameTree b')
    (hPending : n ∉ pendings (levels b.links F)) {w' : List NodeId}
    (hw : ∀ m, m ∈ w' ↔ m ∈ w ∧ m ≠ n)
    (hSpent : ∀ f ∈ G ++ F, n ∈ f.remaining →
      (b.node n).root = none ∧ (b'.node n).state ≠ .unused) :
    Active far wide t b' G F w' := by
  have hRoot : ∀ m, (b'.node m).root = (b.node m).root := fun m =>
    congrArg Links.root (congrFun hTree.links m)
  have hParent : ∀ m, (b'.node m).parent = (b.node m).parent := fun m =>
    congrArg Links.parent (congrFun hTree.links m)
  have hWaits : ∀ m, b'.Waits F w' m ↔ b.Waits F w m ∧ m ≠ n := by
    intro m
    rw [Waits, Waits, hTree.links, hw]
    constructor
    · rintro (⟨hm, hmn⟩ | hm)
      · exact ⟨.inl hm, hmn⟩
      · exact ⟨.inr hm, ne_of_mem_of_not_mem hm hPending⟩
    · rintro ⟨hm | hm, hmn⟩
      · exact .inl ⟨hm, hmn⟩
      · exact .inr hm
  refine ⟨?_, ?_, ?_, ?_, ?_, ?_⟩
  · rw [hTree.links, hTree.roots]
    exact A.tree
  · exact (A.ledger.resolve (.inl hn) hR).congr fun m => (hWaits m).symm
  · intro f hf m hm
    rw [hParent m, hRoot m]
    obtain rfl | hmn := eq_or_ne m n
    · exact .inr (.inr (hSpent f hf hm))
    · rw [hR.other m hmn]
      obtain hSome | hm' | hOther := A.spent f hf m hm
      · exact .inl hSome
      · exact .inr (.inl ((hw m).mpr ⟨hm', hmn⟩))
      · exact .inr (.inr hOther)
  · intro f hf m hm
    rw [hR.counter]
    exact A.created f hf m hm
  · intro f hf m hm hWait c hOffered
    obtain ⟨hWait, hmn⟩ := (hWaits m).mp hWait
    rw [hR.other m hmn] at hOffered
    exact A.fuel f hf m hm hWait c hOffered
  · rw [hTree.links, hTree.depth]
    exact A.layered

theorem Active.record (A : Active far wide t b G F w) {picks : List Pick} {defensive : ℕ}
    (hPicks : ∀ p ∈ picks, p.state = .unused ∧ p.isDummy = false ∧ p.isRunning = false)
    (hDefensive : wide = true → defensive = 0) (answers : ℕ → Bool) (i j : ℕ) :
    Active far wide t { b with
      picks, defensiveReturns := defensive, answers, spawnRejectedPoolFullCount := i,
      spawnRemoteRejectedCount := j } G F w := by
  have hLedger := A.ledger
  refine ⟨A.tree, ⟨?_, ?_, hLedger.running, hLedger.recorded, hLedger.pool, hPicks,
    hLedger.handouts, hDefensive⟩, A.spent, A.created, A.fuel, A.layered⟩
  · intro n hn
    have hn := hLedger.waiting n hn
    exact ⟨hn.untouched, hn.pos, hn.created, hn.no_fate, hn.not_pooled, hn.not_executed, hn.suits,
      hn.serializer⟩
  · intro n hPos hCreated
    obtain hDummy | hWaits | ⟨fate, hFate⟩ := hLedger.settled n hPos hCreated
    · exact .inl hDummy
    · exact .inr (.inl hWaits)
    · exact .inr (.inr ⟨fate, hFate.once, hFate.cached, hFate.executions, hFate.pooled⟩)

theorem Active.ask (A : Active far wide t b G F w) : Active far wide t b.ask.2 G F w :=
  A.record A.ledger.picks A.ledger.defensive _ _ _

theorem Active.reject (A : Active far wide t b G F w) (route : Route) :
    Active far wide t (b.reject route) G F w := by
  cases route with
  | locally => exact A.record A.ledger.picks A.ledger.defensive _ _ _
  | remotely _ => exact A.record A.ledger.picks A.ledger.defensive _ _ _

theorem Active.pick (A : Active far wide t b G (f :: F) w) {qs : List NodeId}
    (hf : f.pending b.links = s :: qs) :
    Active far wide t (b.pruned s) G (f :: F) (s :: w) ∧ ((b.pruned s).node s).root = none ∧
      s ∉ pendings (levels (b.pruned s).links (f :: F)) ∧
      (∀ n, (b.pruned s).Waits (f :: F) (s :: w) n ↔ b.Waits (f :: F) w n) ∧
      (pendings (levels (b.pruned s).links (f :: F))).length + 1 =
        (pendings (levels b.links (f :: F))).length := by
  obtain ⟨T, hPending, hLevels⟩ := A.tree.pick hf
  rw [← links_pruned] at T hPending hLevels
  have hBefore : levels b.links (f :: F) = (f.node, s :: qs) :: levels b.links F := by
    rw [← hf]
    rfl
  have hAfter : levels (b.pruned s).links (f :: F) = (f.node, qs) :: levels b.links F := by
    rw [← hPending, ← hLevels]
    rfl
  have hWaits : ∀ n, (b.pruned s).Waits (f :: F) (s :: w) n ↔ b.Waits (f :: F) w n := by
    intro n
    rw [Waits, Waits, hBefore, hAfter]
    simp only [pendings_cons, List.mem_cons, List.mem_append]
    constructor
    · rintro ((hn | hn) | hn | hn)
      · exact .inr (.inl (.inl hn))
      · exact .inl hn
      · exact .inr (.inl (.inr hn))
      · exact .inr (.inr hn)
    · rintro (hn | (hn | hn) | hn)
      · exact .inl (.inr hn)
      · exact .inl (.inl hn)
      · exact .inr (.inl hn)
      · exact .inr (.inr hn)
  have hs : s ∉ pendings (levels (b.pruned s).links (f :: F)) := by
    intro hs
    obtain ⟨e, -, hs⟩ := mem_pendings_levels.mp hs
    have hNone : ((b.pruned s).links s).parent = none := by
      rw [links_pruned, Spine.pruned_self]
    have hSome := (mem_pending.mp hs).2
    rw [hNone] at hSome
    cases hSome
  have hLayered : Layered b.depth (levels (b.pruned s).links (f :: F)) := by
    have hLayered := A.layered
    rw [hBefore] at hLayered
    rw [hAfter]
    refine ⟨fun n hn => hLayered.1 n ?_, hLayered.2⟩
    obtain hn | hn := List.mem_append.mp hn
    · exact List.mem_append_left _ hn
    · exact List.mem_append_right _ (List.mem_cons_of_mem _ hn)
  refine ⟨A.relink relinked_pruned T (fun _ he => he) hWaits ?_
    (fun _ hn => List.mem_cons_of_mem _ hn) hLayered, ?_, hs, hWaits, ?_⟩
  · intro e he n hn hParent
    have hCut := CutAt.pruned b.links s
    rw [← links_pruned] at hCut
    obtain hParent | ⟨rfl, -⟩ := A.tree.keeps hCut e he n hn hParent
    · exact .inl hParent
    · exact .inr List.mem_cons_self
  · rw [pruned_node_self]
  · rw [hBefore, hAfter]
    simp only [pendings_cons, List.length_append, List.length_cons]
    omega

theorem cases_length {α : Type} (l : List α) :
    l = [] ∨ (∃ a, l = [a]) ∨ ∃ a m z, l = a :: (m ++ [z]) := by
  cases l with
  | nil => exact .inl rfl
  | cons a l =>
    obtain rfl | ⟨m, z, rfl⟩ := List.eq_nil_or_concat l
    · exact .inr (.inl ⟨a, rfl⟩)
    · exact .inr (.inr ⟨a, m, z, by rw [List.concat_eq_append]⟩)

/-- A node that waits is not a dummy, not consumed and not running. -/
theorem Active.pick_fine (A : Active far wide t b G F w) (hs : b.Waits F w s) :
    (b.node s).state = .unused ∧ (b.node s).isDummy = false ∧
      decide (s ∈ b.running) = false := by
  have hWaiting := A.ledger.waiting s hs
  refine ⟨hWaiting.untouched.state, hWaiting.untouched.not_dummy, ?_⟩
  rw [decide_eq_false_iff_not]
  exact fun hRunning => hWaiting.no_fate (A.ledger.running s hRunning)

/-- `get_root_level_pending_node` finds nothing, or the first pending child of the root. -/
theorem Active.getRootLevelPendingNode (A : Active far wide t b G (F ++ [x]) w)
    (hRooted : wide = true → b.Rooted (F ++ [x])) :
    (∃ d, b.getRootLevelPendingNode x.node = .ok (none, { b with defensiveReturns := d }) ∧
      (wide = true → d = 0 ∧ F.length ≤ 1)) ∨
    ∃ f F' s qs p, F ++ [x] = f :: F' ∧ f.pending b.links = s :: qs ∧
      b.getRootLevelPendingNode x.node = .ok (some s, { b.pruned s with picks := p :: b.picks }) ∧
      p.state = .unused ∧ p.isDummy = false ∧ p.isRunning = false := by
  have hDefensive := A.ledger.defensive
  obtain rfl | ⟨f, rfl⟩ | ⟨f, F, e, rfl⟩ := cases_length F
  · refine .inl ⟨b.defensiveReturns, ?_, fun hWide => ⟨hDefensive hWide, Nat.zero_le 1⟩⟩
    have hParent : (b.node x.node).parent = none := congrArg Links.parent A.tree.head
    rw [Balancer.getRootLevelPendingNode, if_pos hParent]
  · refine .inl ⟨b.defensiveReturns, ?_, fun hWide => ⟨hDefensive hWide, Nat.le_refl 1⟩⟩
    have hParent : (b.node x.node).parent = some f.node :=
      congrArg Links.parent (A.tree.last (F := []))
    have hRoot : b.getRoot x.node = some f.node := A.getRoot A.last
    rw [Balancer.getRootLevelPendingNode, hParent, if_neg (by rintro ⟨⟩), if_pos hRoot.symm]
  · have hF : f :: (F ++ [e]) ++ [x] = f :: (F ++ [e, x]) := by
      rw [List.cons_append, List.append_assoc]
      rfl
    have hRoot : b.getRoot x.node = some f.node := A.getRoot A.last
    rw [hF] at A hRooted ⊢
    have hParent : (b.node x.node).parent = some e.node :=
      congrArg Links.parent (A.tree.last (F := f :: F))
    have hne : (some e.node : Option NodeId) ≠ some f.node := by
      intro hef
      exact ThreadTree.node_ne_of_mem A.tree.nodup
        (List.mem_append_right F List.mem_cons_self) (Option.some.inj hef).symm
    have hChildren := A.children
    have hLead : ∃ z, lead (levels b.links (F ++ [e, x])) = [z] := by
      cases F with
      | nil => exact ⟨e.node, rfl⟩
      | cons g F => exact ⟨g.node, rfl⟩
    obtain ⟨z, hz⟩ := hLead
    rw [hz] at hChildren
    rw [Balancer.getRootLevelPendingNode, hParent, if_neg (by rintro ⟨⟩), hRoot, if_neg hne]
    cases hf : f.pending b.links with
    | nil =>
      rw [hf] at hChildren
      have hCount : (b.node f.node).childrenCount < 2 := by
        rw [NodeCore.childrenCount, hChildren]
        exact Nat.lt_succ_self 1
      refine .inl ⟨b.defensiveReturns + 1, if_pos hCount, fun hWide => ?_⟩
      refine absurd ?_ (hRooted hWide f rfl)
      exact congrArg List.length hChildren
    | cons s qs =>
      rw [hf] at hChildren
      have hCount : ¬(b.node f.node).childrenCount < 2 := by
        rw [NodeCore.childrenCount, hChildren]
        simp
      have hSecond : (b.node f.node).getSecondLeftmostChild = .ok s := by
        rw [NodeCore.getSecondLeftmostChild, hChildren]
        rfl
      have hWait : b.Waits (f :: (F ++ [e, x])) w s := by
        refine .inr (mem_pendings_levels.mpr ⟨f, List.mem_cons_self, ?_⟩)
        rw [hf]
        exact List.mem_cons_self
      refine .inr ⟨f, F ++ [e, x], s, qs, ⟨s, (b.node s).state, (b.node s).isDummy,
        decide (s ∈ b.running)⟩, rfl, hf, ?_, A.pick_fine hWait⟩
      change (if (b.node f.node).childrenCount < 2 then _ else _) = _
      rw [if_neg hCount, hSecond]
      change (b.prune s >>= fun b => _) = _
      rw [prune_eq]
      rfl

/-- A push at the root level: nothing is there to be pushed, or one waiting node less is left. -/
theorem Active.tryPushRootLevelNode (A : Active far wide t b G (F ++ [⟨n, [], k⟩]) [n])
    (hRooted : wide = true → b.Rooted (F ++ [⟨n, [], k⟩]))
    (hRoute : route ≠ .locally → far = true) :
    (∃ b', b.tryPushRootLevelNode n route = .ok (false, b') ∧
      Active far wide t b' G (F ++ [⟨n, [], k⟩]) [n] ∧
      (wide = true → b'.Rooted (F ++ [⟨n, [], k⟩]) ∧ F.length ≤ 1)) ∨
    ∃ b' G' F', b.tryPushRootLevelNode n route = .ok (true, b') ∧ G' ++ F' = G ++ F ∧
      Active far wide t b' G' (F' ++ [⟨n, [], k⟩]) [n] ∧ b'.Rooted (F' ++ [⟨n, [], k⟩]) ∧
      (pendings (levels b'.links (F' ++ [⟨n, [], k⟩]))).length <
        (pendings (levels b.links (F ++ [⟨n, [], k⟩]))).length := by
  rcases A.getRootLevelPendingNode hRooted with
    ⟨d, hNone, hWide⟩ | ⟨f, F', s, qs, p, hF, hf, hSome, hPick⟩
  · refine .inl ⟨{ b with defensiveReturns := d }, ?_, ?_, ?_⟩
    · rw [Balancer.tryPushRootLevelNode, hNone]
      rfl
    · exact A.record A.ledger.picks (fun h => (hWide h).1) _ _ _
    · exact fun h => ⟨hRooted h, (hWide h).2⟩
  · refine .inr ?_
    have hx : (⟨n, [], k⟩ : Frame) ∈ F' := by
      have hMem : (⟨n, [], k⟩ : Frame) ∈ f :: F' := by
        rw [← hF]
        exact List.mem_append_right _ List.mem_cons_self
      obtain hfx | hx := List.mem_cons.mp hMem
      · rw [← hfx] at hf
        cases hf
      · exact hx
    have hTop : levels b.links (F ++ [⟨n, [], k⟩]) = (f.node, s :: qs) :: levels b.links F' := by
      rw [hF, ← hf]
      rfl
    have hns : n ≠ s := by
      rintro rfl
      refine A.node_not_pending (List.mem_append_right _ List.mem_cons_self) (g := ⟨n, [], k⟩) ?_
      rw [hTop]
      exact List.mem_cons_self
    have hMinimal : ∀ m, b.Waits (F ++ [⟨n, [], k⟩]) [n] m → b.depth s ≤ b.depth m := by
      have hLayered := A.layered
      rw [hTop] at hLayered
      intro m hm
      rw [hLayered.1 s (List.mem_append_right _ List.mem_cons_self)]
      apply hLayered.lt
      obtain hm | hm := hm
      · rw [List.mem_singleton.mp hm]
        exact List.mem_append_right _ (mem_ids_levels hx List.mem_cons_self)
      · rw [hTop] at hm
        obtain hm | hm := List.mem_append.mp hm
        · exact List.mem_append_left _ hm
        · exact List.mem_append_right _ (pendings_subset hm)
    have A₁ := A
    rw [hF] at A₁
    obtain ⟨A₂, hRoot, hs, hWaits, hLength⟩ := A₁.pick hf
    rw [← hF] at A₂ hs hWaits hLength
    have A₃ : Active far wide t { b.pruned s with picks := p :: b.picks } G
        (F ++ [⟨n, [], k⟩]) [s, n] := by
      refine A₂.record ?_ A₂.ledger.defensive _ _ _
      intro q hq
      obtain rfl | hq := List.mem_cons.mp hq
      · exact hPick
      · exact A.ledger.picks q hq
    obtain ⟨c, hCorrect, hCase⟩ := A₃.tryCorrectRoot
    obtain ⟨G', F₁, C⟩ | ⟨y, hy, -⟩ := hCase
    · have hcWaits : ∀ m, c.Waits (F₁ ++ [⟨n, [], k⟩]) [s, n] m ↔
          b.Waits (F ++ [⟨n, [], k⟩]) [n] m := by
        intro m
        rw [← hWaits m, Waits, C.pendings]
        rfl
      have hcDepth : c.depth = b.depth := C.relinked.depth
      have hsPending : s ∉ pendings (levels c.links (F₁ ++ [⟨n, [], k⟩])) := by
        rw [C.pendings]
        exact hs
      obtain ⟨b', fate, hDelegate, hResolves, hTree, hState⟩ := C.active.ledger.delegateOrDiscard
        (.inl List.mem_cons_self) hRoute (by
          intro _ m hm
          rw [hcDepth]
          exact hMinimal m ((hcWaits m).mp hm))
      have hUnused : ((b.pruned s).node s).state = .unused :=
        (A₂.ledger.waiting s (.inl List.mem_cons_self)).untouched.state
      refine ⟨b', G', F₁, ?_, C.frames, ?_, ?_, ?_⟩
      · rw [Balancer.tryPushRootLevelNode, hSome]
        change (if ((b.pruned s).node s).isConsumed = true then _ else _) = _
        rw [isConsumed_eq_false hUnused]
        change
          (Balancer.tryCorrectRoot { b.pruned s with picks := p :: b.picks } n >>= fun b => _) = _
        rw [hCorrect]
        change (c.delegateOrDiscard s route >>= fun b => _) = _
        rw [hDelegate]
        rfl
      · refine C.active.resolve List.mem_cons_self hResolves hTree hsPending ?_ ?_
        · intro m
          constructor
          · intro hm
            rw [List.mem_singleton.mp hm]
            exact ⟨List.mem_cons_of_mem _ List.mem_cons_self, hns⟩
          · rintro ⟨hm, hms⟩
            obtain hm | hm := List.mem_cons.mp hm
            · exact absurd hm hms
            · exact hm
        · intro e _ _
          exact ⟨C.relinked.root s hRoot, hState⟩
      · rw [Rooted, hTree.links]
        exact C.rooted (.inr (.inl rfl))
      · rw [hTree.links, C.pendings, ← hLength]
        exact Nat.lt_succ_self _
    · cases hy

end Balancer

end Gempba
