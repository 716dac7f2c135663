import Gempba.LoadBalancing.Forwarding

/-!
# Creating the nodes of a call

A call hangs one new node below its own for each of its children. The nodes
wait to be handed over and are the pending children of the innermost node.
-/

namespace Gempba

set_option autoImplicit false

open NodeCore Spine Gempba.Frame

theorem Layered.congr {depth depth' : NodeId → ℕ} {M : List Level} (h : Layered depth M)
    (hDepth : ∀ n ∈ ids M, depth' n = depth n) : Layered depth' M := by
  induction M with
  | nil => trivial
  | cons l M ih =>
    refine ⟨?_, ih h.2 fun n hn => hDepth n (List.mem_append_right _ hn)⟩
    intro n hn
    rw [hDepth l.1 List.mem_cons_self, ← h.1 n hn]
    apply hDepth
    obtain hn | hn := List.mem_append.mp hn
    · exact List.mem_append_right _ (lead_subset hn)
    · exact List.mem_append_left _ (List.mem_cons_of_mem _ hn)

theorem Layered.create {depth : NodeId → ℕ} {L : List Level} {z n : NodeId} {ps : List NodeId}
    (h : Layered depth (L ++ [(z, ps)])) (hn : depth n = depth z + 1) :
    Layered depth (L ++ [(z, ps ++ [n])]) := by
  induction L with
  | nil =>
    refine ⟨?_, trivial⟩
    intro m hm
    change m ∈ ps ++ [n] at hm
    obtain hm | hm := List.mem_append.mp hm
    · exact h.1 m hm
    · rw [List.mem_singleton.mp hm]
      exact hn
  | cons l L ih =>
    refine ⟨fun m hm => h.1 m ?_, ih h.2⟩
    cases L with
    | nil => exact hm
    | cons m L => exact hm

namespace Balancer

/-- `b'` has one node more, and the others differ in their links at most. -/
structure Allocates (b b' : Balancer) : Prop where
  node : ∀ m ≤ b.uniqueIdCounter, (b'.node m).unlinked = (b.node m).unlinked
  counter : b'.uniqueIdCounter = b.uniqueIdCounter + 1
  rest : { b' with
    node := b.node
    uniqueIdCounter := b.uniqueIdCounter
    roots := b.roots
    depth := b.depth } = b

/-- The state once a node for `c` hangs below `p`. -/
def created (b : Balancer) (t : ThreadId) (p : NodeId) (c : Call) : Balancer :=
  { b with
    uniqueIdCounter := b.uniqueIdCounter + 1
    node := fun m =>
      if m = p then { b.node p with children := (b.node p).children ++ [b.uniqueIdCounter + 1] }
      else if m = b.uniqueIdCounter + 1 then
        { c.core with root := some t, parent := some p, threadId := t }
      else b.node m
    depth := Function.update b.depth (b.uniqueIdCounter + 1) (b.depth p + 1) }

variable {far wide : Bool} {t : ThreadId} {b b' : Balancer} {G F S : List Frame} {f : Frame}
  {n m p : NodeId} {qs ns : List NodeId} {c : Call} {cs : List Call} {k k' : ℕ}

theorem created_node_new (hp : p ≤ b.uniqueIdCounter) :
    (b.created t p c).node (b.uniqueIdCounter + 1) =
      { c.core with root := some t, parent := some p, threadId := t } :=
  (if_neg (Nat.ne_of_gt (Nat.lt_succ_of_le hp))).trans (if_pos rfl)

theorem created_node_parent : (b.created t p c).node p =
    { b.node p with children := (b.node p).children ++ [b.uniqueIdCounter + 1] } :=
  if_pos rfl

theorem created_node_of_ne (hm : m ≠ b.uniqueIdCounter + 1) (hmp : m ≠ p) :
    (b.created t p c).node m = b.node m :=
  (if_neg hmp).trans (if_neg hm)

theorem setParent_some (hDummy : (b.node n).isDummy = false) (hnp : n ≠ p)
    (hChildren : (b.node n).children = []) (hParent : (b.node n).parent = none)
    (hNew : n ∉ (b.node p).children) (hThread : (b.node p).threadId = t)
    (hSlot : (b.roots t).isSome) : b.setParent n (some p) = .ok { b with
      node := fun m =>
        if m = p then { b.node p with children := (b.node p).children ++ [n] }
        else if m = n then { b.node n with root := some t, parent := some p }
        else b.node m } := by
  have hSelf : some p ≠ some n := fun h => hnp (Option.some.inj h).symm
  rw [setParent, if_neg (by simp [hDummy]), if_neg hSelf, if_neg (by simp [hChildren]),
    if_neg (by simp [hParent])]
  simp only [linkChild, modify, rootSlot, Function.update_self, Function.update_of_ne hnp.symm,
    Function.update_of_ne hnp, if_neg hNew, hThread, hSlot, if_true]
  congr 2
  funext m
  obtain rfl | hmn := eq_or_ne m n
  · rw [Function.update_self, if_neg hnp, if_pos rfl]
  · obtain rfl | hmp := eq_or_ne m p
    · rw [Function.update_of_ne hmn, Function.update_self, if_pos rfl]
    · rw [Function.update_of_ne hmn, Function.update_of_ne hmp, Function.update_of_ne hmn,
        if_neg hmp, if_neg hmn]

theorem createNode_eq (hp : p ≤ b.uniqueIdCounter)
    (hNew : b.uniqueIdCounter + 1 ∉ (b.node p).children) (hThread : (b.node p).threadId = t)
    (hSlot : (b.roots t).isSome) :
    b.createNode t p c = .ok (b.uniqueIdCounter + 1, b.created t p c) := by
  have hnp : b.uniqueIdCounter + 1 ≠ p := Nat.ne_of_gt (Nat.lt_succ_of_le hp)
  let b₁ : Balancer := { b with
    uniqueIdCounter := b.uniqueIdCounter + 1
    node := Function.update b.node (b.uniqueIdCounter + 1) { c.core with threadId := t }
    depth := Function.update b.depth (b.uniqueIdCounter + 1) (b.depth p + 1) }
  have hNode : b₁.node (b.uniqueIdCounter + 1) = { c.core with threadId := t } :=
    Function.update_self ..
  have hParent : b₁.node p = b.node p := Function.update_of_ne hnp.symm ..
  have hSet := setParent_some (b := b₁) (n := b.uniqueIdCounter + 1) (t := t)
    (by rw [hNode]; exact c.untouched_core.not_dummy) hnp
    (by rw [hNode]; exact congrArg Links.children c.links_core)
    (by rw [hNode]; exact congrArg Links.parent c.links_core)
    (by rw [hParent]; exact hNew) (by rw [hParent]; exact hThread) hSlot
  change (b₁.setParent (b.uniqueIdCounter + 1) (some p)).map _ = _
  rw [hSet, hNode, hParent, created]
  simp only [Except.map]
  congr 3
  funext m
  obtain rfl | hmp := eq_or_ne m p
  · rw [if_pos rfl, if_pos rfl]
  · rw [if_neg hmp, if_neg hmp]
    obtain rfl | hmn := eq_or_ne m (b.uniqueIdCounter + 1)
    · rw [if_pos rfl, if_pos rfl]
    · rw [if_neg hmn, if_neg hmn]
      exact Function.update_of_ne hmn ..

namespace Allocates

variable (h : b.Allocates b')

include h

theorem core {β : Type} (f : NodeCore Call → β) (hf : ∀ m, f m.unlinked = f m)
    (hm : m ≤ b.uniqueIdCounter) : f (b'.node m) = f (b.node m) := by
  rw [← hf, h.node m hm, hf]

theorem field {β : Type} (f : Balancer → β)
    (hf : ∀ c node i roots depth, f { c with node, uniqueIdCounter := i, roots, depth } = f c) :
    f b' = f b := by
  rw [← hf b' b.node b.uniqueIdCounter b.roots b.depth, h.rest]

theorem schedulerWorker : b'.schedulerWorker = b.schedulerWorker :=
  h.field (fun c => c.schedulerWorker) fun _ _ _ _ _ => rfl

theorem offered (hm : m ≤ b.uniqueIdCounter) : (b'.node m).offered = (b.node m).offered :=
  h.core (fun c => c.offered) (fun _ => rfl) hm

theorem ledger {waits waits' : NodeId → Prop} (hb : b.Ledger far wide waits)
    (hWaits : ∀ m, m ≠ b.uniqueIdCounter + 1 → (waits' m ↔ waits m))
    (hDummy : (b'.node (b.uniqueIdCounter + 1)).isDummy = true ∨ waits' (b.uniqueIdCounter + 1))
    (hNew : waits' (b.uniqueIdCounter + 1) → (b'.node (b.uniqueIdCounter + 1)).Untouched ∧
      (∀ c, (b'.node (b.uniqueIdCounter + 1)).offered = some c →
        c.Suits far wide b.schedulerWorker) ∧
      (far = true → (b'.node (b.uniqueIdCounter + 1)).argsSerializer = true)) :
    b'.Ledger far wide waits' := by
  have hFates : b'.fates = b.fates := h.field (fun c => c.fates) fun _ _ _ _ _ => rfl
  have hPool : b'.threadPool = b.threadPool := h.field (fun c => c.threadPool) fun _ _ _ _ _ => rfl
  have hExecuted : b'.executed = b.executed := h.field (fun c => c.executed) fun _ _ _ _ _ => rfl
  have hRunning : b'.running = b.running := h.field (fun c => c.running) fun _ _ _ _ _ => rfl
  have hPicks : b'.picks = b.picks := h.field (fun c => c.picks) fun _ _ _ _ _ => rfl
  have hHandouts : b'.handouts = b.handouts := h.field (fun c => c.handouts) fun _ _ _ _ _ => rfl
  have hDefensive : b'.defensiveReturns = b.defensiveReturns :=
    h.field (fun c => c.defensiveReturns) fun _ _ _ _ _ => rfl
  have hFresh : b.uniqueIdCounter + 1 ∉ b.fates.map Prod.fst ++ b.executed ++ b.threadPool :=
    fun hMem => Nat.not_succ_le_self _ (hb.recorded _ hMem).2
  simp only [List.mem_append, not_or] at hFresh
  refine ⟨?_, ?_, ?_, ?_, ?_, ?_, ?_, ?_⟩
  · intro m hm
    obtain rfl | hmn := eq_or_ne m (b.uniqueIdCounter + 1)
    · obtain ⟨hUntouched, hSuits, hSerializer⟩ := hNew hm
      refine ⟨hUntouched, Nat.succ_pos _, Nat.le_of_eq h.counter.symm, ?_, ?_, ?_, ?_,
        hSerializer⟩
      · rw [hFates]
        exact hFresh.1.1
      · rw [hPool]
        exact hFresh.2
      · rw [hExecuted]
        exact hFresh.1.2
      · rw [h.schedulerWorker]
        exact hSuits
    · have hm := hb.waiting m ((hWaits m hmn).mp hm)
      have hNode := h.node m hm.created
      have hUntouched : (b'.node m).unlinked.Untouched := by
        rw [hNode]
        exact ⟨hm.untouched.state, hm.untouched.not_dummy, hm.untouched.not_asked,
          hm.untouched.ready⟩
      have hSerializer : (b'.node m).argsSerializer = (b.node m).argsSerializer :=
        h.core (fun c => c.argsSerializer) (fun _ => rfl) hm.created
      refine ⟨⟨hUntouched.state, hUntouched.not_dummy, hUntouched.not_asked, hUntouched.ready⟩,
        hm.pos, ?_, ?_, ?_, ?_, ?_, ?_⟩
      · rw [h.counter]
        exact Nat.le_succ_of_le hm.created
      · rw [hFates]
        exact hm.no_fate
      · rw [hPool]
        exact hm.not_pooled
      · rw [hExecuted]
        exact hm.not_executed
      · rw [h.offered hm.created, h.schedulerWorker]
        exact hm.suits
      · rw [hSerializer]
        exact hm.serializer
  · intro m hPos hm
    obtain rfl | hmn := eq_or_ne m (b.uniqueIdCounter + 1)
    · obtain hDummy | hWait := hDummy
      · exact .inl hDummy
      · exact .inr (.inl hWait)
    · rw [h.counter] at hm
      have hm : m ≤ b.uniqueIdCounter := Nat.le_of_lt_succ (Nat.lt_of_le_of_ne hm hmn)
      rw [h.core (fun c => c.isDummy) (fun _ => rfl) hm]
      obtain hDummy | hWait | ⟨fate, hFate⟩ := hb.settled m hPos hm
      · exact .inl hDummy
      · exact .inr (.inl ((hWaits m hmn).mpr hWait))
      · refine .inr (.inr ⟨fate, ?_, ?_, ?_, ?_⟩)
        · rw [hFates]
          exact hFate.once
        · rw [h.core (fun c => c.shouldBranchCached) (fun _ => rfl) hm]
          exact hFate.cached
        · rw [hExecuted, hPool]
          exact hFate.executions
        · rw [hPool]
          exact hFate.pooled
  · rw [hRunning, hFates]
    exact hb.running
  · intro m hm
    rw [hFates, hExecuted, hPool] at hm
    rw [h.counter]
    exact ⟨(hb.recorded m hm).1, Nat.le_succ_of_le (hb.recorded m hm).2⟩
  · intro m hm
    rw [hPool] at hm
    have hCreated := (hb.recorded m (List.mem_append_right _ hm)).2
    rw [h.core (fun c => c.arguments) (fun _ => rfl) hCreated, h.schedulerWorker]
    exact hb.pool m hm
  · rw [hPicks]
    exact hb.picks
  · rw [hHandouts]
    exact hb.handouts
  · rw [hDefensive]
    exact hb.defensive

end Allocates

theorem allocates_created (hp : p ≤ b.uniqueIdCounter) : b.Allocates (b.created t p c) := by
  refine ⟨?_, rfl, rfl⟩
  intro m hm
  obtain rfl | hmp := eq_or_ne m p
  · rw [created_node_parent]
    rfl
  · rw [created_node_of_ne (Nat.ne_of_lt (Nat.lt_succ_of_le hm)) hmp]

/-- The innermost node has just its pending children. -/
theorem Active.innermost {w : List NodeId} (A : Active far wide t b G (F ++ [f]) w) :
    (b.node f.node).children = f.pending b.links ∧ (b.node f.node).threadId = t ∧
      (b.roots t).isSome := by
  have hSlot : (b.roots t).isSome := by
    cases F with
    | nil => exact (congrArg Option.isSome (A.tree.slot f rfl)).trans rfl
    | cons e F => exact (congrArg Option.isSome (A.tree.slot e rfl)).trans rfl
  obtain rfl | ⟨F, e, rfl⟩ := List.eq_nil_or_concat F
  · exact ⟨congrArg Links.children A.tree.head, congrArg Links.threadId A.tree.head, hSlot⟩
  · rw [List.concat_eq_append, List.append_assoc] at A
    exact ⟨congrArg Links.children A.tree.last, congrArg Links.threadId A.tree.last, hSlot⟩

/-- The innermost call, which holds no children, gets the fuel for those it will create. -/
theorem Active.refuel (A : Active far wide t b G (F ++ [⟨p, [], k⟩]) []) (k' : ℕ) :
    Active far wide t b G (F ++ [⟨p, [], k'⟩]) [] := by
  have hLevels : levels b.links (F ++ [⟨p, [], k'⟩]) = levels b.links (F ++ [⟨p, [], k⟩]) := by
    rw [ThreadTree.levels_append, ThreadTree.levels_append]
    rfl
  have hFrames : ∀ e ∈ G ++ (F ++ [⟨p, [], k'⟩]), e ∈ G ++ (F ++ [⟨p, [], k⟩]) ∨
      e = ⟨p, [], k'⟩ := by
    intro e he
    rw [← List.append_assoc] at he ⊢
    obtain he | he := List.mem_append.mp he
    · exact .inl (List.mem_append_left _ he)
    · exact .inr (List.mem_singleton.mp he)
  have hLast : (⟨p, [], k⟩ : Frame) ∈ G ++ (F ++ [⟨p, [], k⟩]) :=
    List.mem_append_right _ (List.mem_append_right _ List.mem_cons_self)
  have hWaits : ∀ m, b.Waits (F ++ [⟨p, [], k'⟩]) [] m ↔ b.Waits (F ++ [⟨p, [], k⟩]) [] m := by
    intro m
    rw [Waits, Waits, hLevels]
  refine ⟨⟨?_, ?_, ?_, A.tree.passed⟩, A.ledger.congr fun m => (hWaits m).symm, ?_, ?_, ?_, ?_⟩
  · rw [hLevels]
    exact A.tree.path
  · rw [hLevels]
    exact A.tree.nodup
  · intro e he
    cases F with
    | nil =>
      cases Option.some.inj (Option.mem_def.mp he)
      exact A.tree.slot ⟨p, [], k⟩ rfl
    | cons e' F => exact A.tree.slot e he
  · intro e he m hm
    obtain he | rfl := hFrames e he
    · exact A.spent e he m hm
    · cases hm
  · intro e he m hm
    obtain he | rfl := hFrames e he
    · exact A.created e he m hm
    · exact A.created _ hLast m hm
  · intro e he m hm hWait
    have hWait := (hWaits m).mp hWait
    obtain he | rfl := hFrames e he
    · exact A.fuel e he m hm hWait
    · rw [List.mem_singleton.mp hm] at hWait
      obtain hWait | hWait := hWait
      · cases hWait
      · exact absurd hWait (A.innermost_not_pending (e := ⟨p, [], k⟩) hLast)
  · rw [hLevels]
    exact A.layered

theorem Active.create (A : Active far wide t b G (F ++ [⟨p, qs, k⟩]) []) (hDepth : c.depth ≤ k)
    (hSuits : c.Suits far wide b.schedulerWorker)
    (hSerializable : far = true → c.creation.serializable = true) :
    b.createNode t p c = .ok (b.uniqueIdCounter + 1, b.created t p c) ∧
      Active far wide t (b.created t p c) G (F ++ [⟨p, qs ++ [b.uniqueIdCounter + 1], k⟩]) [] := by
  have hLast : (⟨p, qs, k⟩ : Frame) ∈ G ++ (F ++ [⟨p, qs, k⟩]) :=
    List.mem_append_right _ (List.mem_append_right _ List.mem_cons_self)
  have hp : p ≤ b.uniqueIdCounter := (A.created _ hLast p List.mem_cons_self).2
  have hOld : ∀ e ∈ G ++ (F ++ [⟨p, qs, k⟩]), ∀ m ∈ e.node :: e.remaining,
      m ≠ b.uniqueIdCounter + 1 := by
    intro e he m hm
    exact Nat.ne_of_lt (Nat.lt_succ_of_le (A.created e he m hm).2)
  have hNew : ∀ e ∈ G ++ (F ++ [⟨p, qs, k⟩]), b.uniqueIdCounter + 1 ∉ e.node :: e.remaining :=
    fun e he hm => hOld e he _ hm rfl
  have hLinks : ∀ {m}, m ≠ b.uniqueIdCounter + 1 → m ≠ p →
      (b.created t p c).links m = b.links m := by
    intro m hm hmp
    exact congrArg NodeCore.links (created_node_of_ne hm hmp)
  have hNode := created_node_new (t := t) (c := c) hp
  have hNodeLinks : (b.created t p c).links (b.uniqueIdCounter + 1) = ⟨some t, some p, [], t⟩ := by
    rw [links, hNode, NodeCore.links, show c.core.children = [] from
      congrArg Links.children c.links_core]
  have hParent : (b.created t p c).links p =
      { b.links p with children := (b.links p).children ++ [b.uniqueIdCounter + 1] } :=
    congrArg NodeCore.links created_node_parent
  obtain ⟨T, hLevels, hPending⟩ :=
    A.tree.create hNew hNodeLinks hParent (fun m hm hmp => hLinks hm hmp) k
  have hAfter : levels (b.created t p c).links (F ++ [⟨p, qs ++ [b.uniqueIdCounter + 1], k⟩]) =
      levels b.links F ++
        [(p, (⟨p, qs, k⟩ : Frame).pending b.links ++ [b.uniqueIdCounter + 1])] := by
    rw [ThreadTree.levels_append, hLevels, ← hPending]
    rfl
  have hBefore : levels b.links (F ++ [⟨p, qs, k⟩]) =
      levels b.links F ++ [(p, (⟨p, qs, k⟩ : Frame).pending b.links)] :=
    ThreadTree.levels_append ..
  have hWaits : ∀ m, (b.created t p c).Waits (F ++ [⟨p, qs ++ [b.uniqueIdCounter + 1], k⟩]) [] m ↔
      b.Waits (F ++ [⟨p, qs, k⟩]) [] m ∨ m = b.uniqueIdCounter + 1 := by
    intro m
    rw [Waits, Waits, hAfter, hBefore, pendings_append, pendings_append]
    simp [or_assoc]
  have hFresh : ¬b.Waits (F ++ [⟨p, qs, k⟩]) [] (b.uniqueIdCounter + 1) :=
    fun hWait => Nat.not_succ_le_self _ (A.ledger.waiting _ hWait).created
  -- A frame holds what it held before, and the innermost one the new node as well.
  have hFrames : ∀ e ∈ G ++ (F ++ [⟨p, qs ++ [b.uniqueIdCounter + 1], k⟩]),
      ∃ e₀ ∈ G ++ (F ++ [⟨p, qs, k⟩]), e₀.node = e.node ∧ e₀.fuel = e.fuel ∧
        ∀ m ∈ e.remaining, m ∈ e₀.remaining ∨ m = b.uniqueIdCounter + 1 ∧ e.fuel = k := by
    intro e he
    rw [← List.append_assoc] at he
    obtain he | he := List.mem_append.mp he
    · refine ⟨e, ?_, rfl, rfl, fun m hm => .inl hm⟩
      rw [← List.append_assoc]
      exact List.mem_append_left _ he
    · rw [List.mem_singleton.mp he]
      refine ⟨_, hLast, rfl, rfl, fun m hm => ?_⟩
      obtain hm | hm := List.mem_append.mp hm
      · exact .inl hm
      · exact .inr ⟨List.mem_singleton.mp hm, rfl⟩
  have hKeep : ∀ {β : Type} (q : NodeCore Call → β)
      (_ : ∀ (d : NodeCore Call) ns, q { d with children := ns } = q d) (m : NodeId),
      m ≠ b.uniqueIdCounter + 1 → q ((b.created t p c).node m) = q (b.node m) := by
    intro β q hq m hm
    obtain rfl | hmp := eq_or_ne m p
    · rw [created_node_parent, hq]
    · rw [created_node_of_ne hm hmp]
  have hAllocates := allocates_created (t := t) (c := c) hp
  have hOffered : ∀ d, ((b.created t p c).node (b.uniqueIdCounter + 1)).offered = some d →
      d = c := by
    intro d hd
    rw [hNode] at hd
    exact c.offered_core hd
  obtain ⟨hChildren, hThread, hSlot⟩ := A.innermost
  have hNotChild : b.uniqueIdCounter + 1 ∉ (b.node p).children := by
    rw [hChildren]
    exact fun hn => hNew _ hLast (List.mem_cons_of_mem _ (mem_pending.mp hn).1)
  refine ⟨createNode_eq hp hNotChild hThread hSlot, T, hAllocates.ledger A.ledger ?_ ?_ ?_,
    ?_, ?_, ?_, ?_⟩
  · intro m hm
    rw [hWaits]
    exact or_iff_left hm
  · exact .inr ((hWaits _).mpr (.inr rfl))
  · intro _
    have hCore := c.untouched_core
    refine ⟨?_, ?_, ?_⟩
    · rw [hNode]
      exact ⟨hCore.state, hCore.not_dummy, hCore.not_asked, hCore.ready⟩
    · intro d hd
      rw [hOffered d hd]
      exact hSuits
    · rw [hNode]
      exact fun hFar => c.argsSerializer_core.trans (hSerializable hFar)
  · intro e he m hm
    obtain rfl | hmn := eq_or_ne m (b.uniqueIdCounter + 1)
    · rw [hNode]
      exact .inl rfl
    · obtain ⟨e₀, he₀, -, -, hMem⟩ := hFrames e he
      obtain hm | ⟨hm, -⟩ := hMem m hm
      · rw [hKeep (fun d => d.parent) (fun _ _ => rfl) m hmn,
          hKeep (fun d => d.root) (fun _ _ => rfl) m hmn,
          hKeep (fun d => d.state) (fun _ _ => rfl) m hmn]
        exact A.spent e₀ he₀ m hm
      · exact absurd hm hmn
  · intro e he m hm
    obtain ⟨e₀, he₀, hNode₀, -, hMem⟩ := hFrames e he
    have hBound : ∀ m ∈ e₀.node :: e₀.remaining, 0 < m ∧ m ≤ b.uniqueIdCounter + 1 := by
      intro m hm
      have hm := A.created e₀ he₀ m hm
      exact ⟨hm.1, Nat.le_succ_of_le hm.2⟩
    obtain rfl | hm := List.mem_cons.mp hm
    · rw [← hNode₀]
      exact hBound _ List.mem_cons_self
    · obtain hm | ⟨rfl, -⟩ := hMem m hm
      · exact hBound m (List.mem_cons_of_mem _ hm)
      · exact ⟨Nat.succ_pos _, Nat.le_refl _⟩
  · intro e he m hm hWait d hd
    obtain ⟨e₀, he₀, hNode₀, hFuel, hMem⟩ := hFrames e he
    obtain hWait | rfl := (hWaits m).mp hWait
    · have hmn : m ≠ b.uniqueIdCounter + 1 := by
        rintro rfl
        exact hFresh hWait
      rw [hAllocates.offered (A.ledger.waiting m hWait).created] at hd
      rw [← hFuel]
      refine A.fuel e₀ he₀ m ?_ hWait d hd
      obtain rfl | hm := List.mem_cons.mp hm
      · rw [← hNode₀]
        exact List.mem_cons_self
      · obtain hm | ⟨hm, -⟩ := hMem m hm
        · exact List.mem_cons_of_mem _ hm
        · exact absurd hm hmn
    · rw [hOffered d hd]
      obtain hm | hm := List.mem_cons.mp hm
      · refine absurd ?_ (hNew e₀ he₀)
        rw [hm, ← hNode₀]
        exact List.mem_cons_self
      · obtain hm | ⟨-, hk⟩ := hMem _ hm
        · exact absurd (List.mem_cons_of_mem _ hm) (hNew e₀ he₀)
        · rw [hk]
          exact hDepth
  · rw [hAfter]
    have hDepths : ∀ m ≤ b.uniqueIdCounter, (b.created t p c).depth m = b.depth m :=
      fun m hm => Function.update_of_ne (Nat.ne_of_lt (Nat.lt_succ_of_le hm)) ..
    apply Layered.create
    · have hLayered := A.layered
      rw [hBefore] at hLayered
      apply hLayered.congr
      intro m hm
      rw [← hBefore] at hm
      obtain ⟨_, hl, hm⟩ := List.mem_flatMap.mp hm
      obtain ⟨e, he, rfl⟩ := List.mem_map.mp hl
      apply hDepths
      refine (A.created e (List.mem_append_right _ he) m ?_).2
      obtain rfl | hm := List.mem_cons.mp hm
      · exact List.mem_cons_self
      · exact List.mem_cons_of_mem _ (mem_pending.mp hm).1
    · rw [hDepths p hp]
      exact Function.update_self ..

/-- The innermost call creates its children. -/
structure Grown (far wide : Bool) (t : ThreadId) (b : Balancer) (G F : List Frame) (p : NodeId)
    (k : ℕ) (ns : List NodeId) (b' : Balancer) : Prop where
  active : Active far wide t b' G (F ++ [⟨p, ns, k⟩]) []
  keeps : ∀ m ≤ b.uniqueIdCounter, m ≠ p → b'.node m = b.node m
  linked : ∀ n ∈ ns, (b'.node n).parent.isSome
  worker : b'.schedulerWorker = b.schedulerWorker

theorem Active.createNodes (A : Active far wide t b G (F ++ [⟨p, qs, k⟩]) [])
    (hLinked : ∀ n ∈ qs, (b.node n).parent.isSome) (hDepth : ∀ c ∈ cs, c.depth ≤ k)
    (hSuits : ∀ c ∈ cs, c.Suits far wide b.schedulerWorker)
    (hSerializable : far = true → ∀ c ∈ cs, c.creation.serializable = true) :
    ∃ b', b.createNodes t p cs = .ok (List.range' (b.uniqueIdCounter + 1) cs.length, b') ∧
      Grown far wide t b G F p k (qs ++ List.range' (b.uniqueIdCounter + 1) cs.length) b' := by
  induction cs generalizing b qs with
  | nil =>
    refine ⟨b, rfl, ?_, fun _ _ _ => rfl, ?_, rfl⟩
    · rw [List.length_nil, List.range'_zero, List.append_nil]
      exact A
    · rw [List.length_nil, List.range'_zero, List.append_nil]
      exact hLinked
  | cons c cs ih =>
    have hLast : (⟨p, qs, k⟩ : Frame) ∈ G ++ (F ++ [⟨p, qs, k⟩]) :=
      List.mem_append_right _ (List.mem_append_right _ List.mem_cons_self)
    have hp : p ≤ b.uniqueIdCounter := (A.created _ hLast p List.mem_cons_self).2
    obtain ⟨hCreate, A'⟩ := A.create (hDepth c List.mem_cons_self) (hSuits c List.mem_cons_self)
      fun hFar => hSerializable hFar c List.mem_cons_self
    have hKeeps : ∀ m ≤ b.uniqueIdCounter, m ≠ p → (b.created t p c).node m = b.node m :=
      fun m hm hmp => created_node_of_ne (Nat.ne_of_lt (Nat.lt_succ_of_le hm)) hmp
    have hLinked' : ∀ n ∈ qs ++ [b.uniqueIdCounter + 1],
        ((b.created t p c).node n).parent.isSome := by
      intro n hn
      obtain hn | hn := List.mem_append.mp hn
      · have hn' := (A.created _ hLast n (List.mem_cons_of_mem _ hn)).2
        obtain rfl | hnp := eq_or_ne n p
        · rw [created_node_parent]
          exact hLinked n hn
        · rw [hKeeps n hn' hnp]
          exact hLinked n hn
      · rw [List.mem_singleton.mp hn, created_node_new hp]
        rfl
    obtain ⟨b', hOk, g⟩ := ih A' hLinked' (fun d hd => hDepth d (List.mem_cons_of_mem _ hd))
      (fun d hd => hSuits d (List.mem_cons_of_mem _ hd))
      fun hFar d hd => hSerializable hFar d (List.mem_cons_of_mem _ hd)
    have hRange : List.range' (b.uniqueIdCounter + 1) (c :: cs).length =
        (b.uniqueIdCounter + 1) ::
          List.range' ((b.created t p c).uniqueIdCounter + 1) cs.length :=
      List.range'_succ
    refine ⟨b', ?_, ?_, ?_, ?_, g.worker⟩
    · rw [Balancer.createNodes]
      change (b.createNode t p c >>= fun x => _) = _
      rw [hCreate]
      change ((b.created t p c).createNodes t p cs >>= fun x => _) = _
      rw [hOk, hRange]
      rfl
    · rw [hRange, List.append_cons qs]
      exact g.active
    · intro m hm hmp
      rw [g.keeps m (Nat.le_succ_of_le hm) hmp, hKeeps m hm hmp]
    · rw [hRange, List.append_cons qs]
      exact g.linked

end Balancer

end Gempba
