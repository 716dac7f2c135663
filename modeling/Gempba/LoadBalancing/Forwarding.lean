import Gempba.LoadBalancing.Sending

/-!
# Forwarding a node

A node that is still linked is run or skipped and then pruned; a node that a
push at the root level has taken is only pruned. Either way the call that
holds it goes on with one remaining child less.
-/

namespace Gempba

set_option autoImplicit false

open NodeCore Spine Gempba.Frame

theorem Layered.shift {depth : NodeId → ℕ} {L : List Level} {z y : NodeId} {ps : List NodeId}
    (h : Layered depth (L ++ [(z, y :: ps)])) : Layered depth (L ++ [(z, ps), (y, [])]) := by
  induction L with
  | nil => exact ⟨h.1, (by rintro _ ⟨⟩), trivial⟩
  | cons l L ih =>
    refine ⟨fun n hn => h.1 n ?_, ih h.2⟩
    cases L with
    | nil => exact hn
    | cons m L => exact hn

namespace Balancer

variable {far wide : Bool} {t : ThreadId} {b b' : Balancer} {G G' F F' S : List Frame}
  {f g x : Frame} {n p s y : NodeId} {w rest : List NodeId} {route : Route} {fate : Fate} {k : ℕ}

/-- The same state, seen with other frames of which each is part of an old one. -/
theorem Active.reframe (A : Active far wide t b G F w) {w' : List NodeId}
    (T : ThreadTree b.links b.roots t G' F')
    (hFrames : ∀ e' ∈ G' ++ F', ∃ e ∈ G ++ F, e'.node ∈ e.node :: e.remaining ∧
      e'.remaining ⊆ e.remaining ∧ e'.fuel = e.fuel)
    (hWaits : ∀ m, b.Waits F' w' m ↔ b.Waits F w m) (hw : ∀ m ∈ w, m ∈ w')
    (hLayered : Layered b.depth (levels b.links F')) : Active far wide t b G' F' w' := by
  have hMem : ∀ {e e' : Frame}, e'.node ∈ e.node :: e.remaining → e'.remaining ⊆ e.remaining →
      ∀ n ∈ e'.node :: e'.remaining, n ∈ e.node :: e.remaining := by
    intro e e' hNode hSub n hn
    obtain rfl | hn := List.mem_cons.mp hn
    · exact hNode
    · exact List.mem_cons_of_mem _ (hSub hn)
  refine ⟨T, A.ledger.congr fun m => (hWaits m).symm, ?_, ?_, ?_, hLayered⟩
  · intro e' he' n hn
    obtain ⟨e, he, -, hSub, -⟩ := hFrames e' he'
    obtain hSome | hnw | hSpent := A.spent e he n (hSub hn)
    · exact .inl hSome
    · exact .inr (.inl (hw n hnw))
    · exact .inr (.inr hSpent)
  · intro e' he' n hn
    obtain ⟨e, he, hNode, hSub, -⟩ := hFrames e' he'
    exact A.created e he n (hMem hNode hSub n hn)
  · intro e' he' n hn hWait c hOffered
    obtain ⟨e, he, hNode, hSub, hFuel⟩ := hFrames e' he'
    rw [hFuel]
    exact A.fuel e he n (hMem hNode hSub n hn) ((hWaits n).mp hWait) c hOffered

theorem frames_replace {L M : List Frame} {e e' : Frame} (hNode : e'.node ∈ e.node :: e.remaining)
    (hSub : e'.remaining ⊆ e.remaining) (hFuel : e'.fuel = e.fuel) :
    ∀ g' ∈ L ++ e' :: M, ∃ g ∈ L ++ e :: M, g'.node ∈ g.node :: g.remaining ∧
      g'.remaining ⊆ g.remaining ∧ g'.fuel = g.fuel := by
  intro g' hg'
  obtain hg | hg := List.mem_append.mp hg'
  · exact ⟨g', List.mem_append_left _ hg, List.mem_cons_self, List.Subset.refl _, rfl⟩
  · obtain rfl | hg := List.mem_cons.mp hg
    · exact ⟨e, List.mem_append_right _ List.mem_cons_self, hNode, hSub, hFuel⟩
    · exact ⟨g', List.mem_append_right _ (List.mem_cons_of_mem _ hg), List.mem_cons_self,
        List.Subset.refl _, rfl⟩

theorem Active.advance (A : Active far wide t b G (F ++ [⟨p, n :: rest, k⟩]) w)
    (hn : (b.node n).parent = none) : Active far wide t b G (F ++ [⟨p, rest, k⟩]) w := by
  have hPending : (⟨p, n :: rest, k⟩ : Frame).pending b.links =
      (⟨p, rest, k⟩ : Frame).pending b.links :=
    List.filter_cons_of_neg (by simp [links, NodeCore.links, hn])
  have hLevels : levels b.links (F ++ [⟨p, rest, k⟩]) =
      levels b.links (F ++ [⟨p, n :: rest, k⟩]) := by
    rw [ThreadTree.levels_append, ThreadTree.levels_append]
    exact congrArg (fun ps => levels b.links F ++ [(p, ps)]) hPending.symm
  refine A.reframe (A.tree.handOver hn) ?_ ?_ (fun _ hm => hm) ?_
  · rw [← List.append_assoc, ← List.append_assoc]
    exact frames_replace List.mem_cons_self (List.subset_cons_self n rest) rfl
  · intro m
    rw [Waits, Waits, hLevels]
  · rw [hLevels]
    exact A.layered

theorem Active.advance_passed (A : Active far wide t b (G ++ [⟨p, n :: rest, k⟩]) F w) :
    Active far wide t b (G ++ [⟨p, rest, k⟩]) F w := by
  refine A.reframe A.tree.handOver_passed ?_ (fun _ => Iff.rfl) (fun _ hm => hm) A.layered
  rw [List.append_assoc, List.append_assoc]
  exact frames_replace List.mem_cons_self (List.subset_cons_self n rest) rfl

theorem Active.descend (A : Active far wide t b G (F ++ [⟨p, n :: rest, k⟩]) w)
    (hn : (b.node n).parent.isSome) :
    Active far wide t b G (F ++ [⟨p, rest, k⟩] ++ [⟨n, [], k⟩]) (n :: w) := by
  have hPending : (⟨p, n :: rest, k⟩ : Frame).pending b.links =
      n :: (⟨p, rest, k⟩ : Frame).pending b.links :=
    List.filter_cons_of_pos (by exact hn)
  have hBefore : levels b.links (F ++ [⟨p, n :: rest, k⟩]) =
      levels b.links F ++ [(p, n :: (⟨p, rest, k⟩ : Frame).pending b.links)] := by
    rw [ThreadTree.levels_append]
    exact congrArg (fun ps => levels b.links F ++ [(p, ps)]) hPending
  have hAfter : levels b.links (F ++ [⟨p, rest, k⟩, ⟨n, [], k⟩]) =
      levels b.links F ++ [(p, (⟨p, rest, k⟩ : Frame).pending b.links), (n, [])] :=
    ThreadTree.levels_append ..
  have hJoin : F ++ [⟨p, rest, k⟩] ++ [⟨n, [], k⟩] = F ++ [⟨p, rest, k⟩, ⟨n, [], k⟩] := by
    rw [List.append_assoc]
    rfl
  rw [hJoin]
  refine A.reframe (A.tree.descend hn k) ?_ ?_ (fun _ hm => List.mem_cons_of_mem _ hm) ?_
  · intro e' he'
    rw [← List.append_assoc] at he' ⊢
    obtain he | he := List.mem_append.mp he'
    · exact ⟨e', List.mem_append_left _ he, List.mem_cons_self, List.Subset.refl _, rfl⟩
    · refine ⟨⟨p, n :: rest, k⟩, List.mem_append_right _ List.mem_cons_self, ?_⟩
      obtain rfl | he := List.mem_cons.mp he
      · exact ⟨List.mem_cons_self, List.subset_cons_self n rest, rfl⟩
      · rw [List.mem_singleton.mp he]
        exact ⟨List.mem_cons_of_mem _ List.mem_cons_self, List.nil_subset _, rfl⟩
  · intro m
    rw [Waits, Waits, hBefore, hAfter, pendings_append, pendings_append]
    simp only [pendings_cons, pendings_nil, List.append_nil, List.mem_cons, List.mem_append]
    constructor
    · rintro ((hm | hm) | hm | hm)
      · exact .inr (.inr (.inl hm))
      · exact .inl hm
      · exact .inr (.inl hm)
      · exact .inr (.inr (.inr hm))
    · rintro (hm | hm | hm | hm)
      · exact .inl (.inr hm)
      · exact .inr (.inl hm)
      · exact .inl (.inl hm)
      · exact .inr (.inr hm)
  · rw [hAfter]
    apply Layered.shift
    rw [← hBefore]
    exact A.layered

theorem Active.skip (A : Active far wide t b G F w) (hParent : (b.node n).parent = none)
    (hRoot : (b.node n).root = none) :
    Active far wide t (b.pruned n) G F w ∧ (b.Rooted F → (b.pruned n).Rooted F) := by
  have hIds : n ∉ ids (levels b.links F) := by
    apply A.tree.not_pending_of_root
    rw [show (b.links n).root = none from hRoot]
    rintro ⟨⟩
  have T := A.tree.skip hParent hIds
  rw [← links_pruned] at T
  have hOther : ∀ m, m ≠ n → (b.pruned n).links m = b.links m := by
    intro m hmn
    rw [links_pruned, Spine.pruned_of_ne hmn]
    rw [show (b.links n).parent = none from hParent]
    rintro ⟨⟩
  have hSame : ∀ m, ((b.pruned n).links m).parent = (b.links m).parent := by
    intro m
    obtain rfl | hmn := eq_or_ne m n
    · rw [links_pruned, Spine.pruned_self]
      exact hParent.symm
    · rw [hOther m hmn]
  have hLevels : levels (b.pruned n).links F = levels b.links F := by
    apply List.map_congr_left
    intro e _
    simp only [level, Frame.pending, hSame]
  refine ⟨A.relink relinked_pruned T (fun _ hf => hf) ?_ ?_ (fun _ hm => hm) ?_, ?_⟩
  · intro m
    rw [Waits, Waits, hLevels]
  · intro e _ m _ hm
    refine .inl ?_
    rw [show ((b.pruned n).node m).parent = (b.node m).parent from hSame m]
    exact hm
  · rw [hLevels]
    exact A.layered
  · intro hRooted e he
    rw [hOther e.node]
    · exact hRooted e he
    · rintro rfl
      refine hIds (mem_ids_levels ?_ List.mem_cons_self)
      exact List.mem_of_mem_head? he

/-- The calls `S` are active, some of them left behind. -/
def Standing (far wide : Bool) (t : ThreadId) (b : Balancer) (S : List Frame) : Prop :=
  ∃ G F, G ++ F = S ∧ Active far wide t b G F [] ∧ (wide = true → b.Rooted F)

theorem split_last_two {α : Type} {G F S : List α} {f x : α} (h : G ++ F = S ++ [f, x]) :
    F = [] ∧ G = S ++ [f] ++ [x] ∨ F = [x] ∧ G = S ++ [f] ∨ ∃ L, F = L ++ [f, x] ∧ G ++ L = S := by
  obtain rfl | ⟨F, a, rfl⟩ := List.eq_nil_or_concat F
  · refine .inl ⟨rfl, ?_⟩
    rw [List.append_nil] at h
    rw [h, List.append_assoc]
    rfl
  · rw [List.concat_eq_append] at h
    have hSplit : G ++ F ++ [a] = S ++ [f] ++ [x] := by
      rw [List.append_assoc, List.append_assoc]
      exact h
    obtain ⟨hTail, hax⟩ := List.append_inj' hSplit rfl
    cases hax
    obtain rfl | ⟨F, a, rfl⟩ := List.eq_nil_or_concat F
    · rw [List.append_nil] at hTail
      exact .inr (.inl ⟨rfl, hTail⟩)
    · rw [List.concat_eq_append, ← List.append_assoc] at hTail
      obtain ⟨hRest, haf⟩ := List.append_inj' hTail rfl
      cases haf
      refine .inr (.inr ⟨F, ?_, hRest⟩)
      rw [List.concat_eq_append, List.concat_eq_append, List.append_assoc]
      rfl

/-- `prune_and_correct_root_after_forward` on the innermost node. -/
theorem Standing.close (h : Standing far wide t b (S ++ [f, ⟨n, [], k⟩])) :
    ∃ b', b.pruneAndCorrectRootAfterForward n = .ok b' ∧
      Ready far wide t b' S f [] fun _ => True := by
  obtain ⟨G, F, hStack, A, hRooted⟩ := h
  have hLoose : ∀ {G}, Active far wide t b G [] [] → (b.node n).parent = none → G = S ++ [f] →
      ∃ b', b.pruneAndCorrectRootAfterForward n = .ok b' ∧
        Ready far wide t b' S f [] fun _ => True := by
    intro G A hParent hG
    refine ⟨b.pruned n, ?_, G, [], [], A.pruneLoose hParent, fun _ => rooted_nil,
      .inl ⟨by rw [List.append_nil, hG], rfl⟩, fun _ _ => trivial⟩
    rw [pruneAndCorrectRootAfterForward, hParent]
    exact prune_eq b n
  obtain ⟨rfl, rfl⟩ | ⟨rfl, rfl⟩ | ⟨L, rfl, rfl⟩ := split_last_two hStack
  · have hPassed := A.tree.passed ⟨n, [], k⟩ (List.mem_append_right _ List.mem_cons_self)
    exact hLoose A.dropPassed hPassed.1 rfl
  · exact hLoose (A.forget rfl) (congrArg Links.parent A.tree.head) rfl
  · obtain ⟨b', hCorrect, -, R⟩ := A.closeAndCorrect hRooted
    obtain ⟨G', F', w, R⟩ := R
    refine ⟨b', ?_, G', F', w, R.active, R.rooted, R.stack, fun _ _ => trivial⟩
    have hParent : (b.node n).parent = some f.node := congrArg Links.parent A.tree.last
    rw [pruneAndCorrectRootAfterForward, hParent]
    change (b.prune n >>= fun b => _) = _
    rw [prune_eq]
    exact hCorrect

theorem Active.innermost_not_pending (A : Active far wide t b G F w) {e : Frame}
    (he : e ∈ G ++ F) : e.node ∉ pendings (levels b.links F) := by
  obtain he | he := List.mem_append.mp he
  · intro hPending
    obtain ⟨g, -, hg⟩ := mem_pendings_levels.mp hPending
    have hSome := (mem_pending.mp hg).2
    rw [(A.tree.passed e he).1] at hSome
    cases hSome
  · exact A.node_not_pending he

theorem Active.finish (A : Active far wide t b G F []) {e : Frame} (he : e ∈ G ++ F) :
    let b' := { b with running := b.running.erase e.node }.modify e.node
      fun m => { m with state := .forwarded }
    Active far wide t b' G F [] ∧ b'.links = b.links := by
  intro b'
  have hLinks : b'.links = b.links := links_modify rfl
  have hSelf : b'.node e.node = { b.node e.node with state := .forwarded } := modify_node_self _
  have hOther : ∀ m, m ≠ e.node → b'.node m = b.node m := fun m hm => modify_node_of_ne _ hm
  have hNot : ¬b.Waits F [] e.node := by
    rintro (h | h)
    · cases h
    · exact A.innermost_not_pending he h
  have hNe : ∀ m, b.Waits F [] m → m ≠ e.node := by
    rintro m hm rfl
    exact hNot hm
  have hWaits : ∀ m, b'.Waits F [] m ↔ b.Waits F [] m := by
    intro m
    rw [Waits, Waits, hLinks]
  have hKeep : ∀ {β : Type} (p : NodeCore Call → β)
      (_ : ∀ c : NodeCore Call, p { c with state := .forwarded } = p c) (m : NodeId),
      p (b'.node m) = p (b.node m) := by
    intro β p hp m
    obtain rfl | hm := eq_or_ne m e.node
    · rw [hSelf, hp]
    · rw [hOther m hm]
  have hLedger := A.ledger
  refine ⟨⟨?_, ⟨?_, ?_, ?_, hLedger.recorded, ?_, hLedger.picks, hLedger.handouts,
    hLedger.defensive⟩, ?_, A.created, ?_, ?_⟩, hLinks⟩
  · rw [hLinks]
    exact A.tree
  · intro m hm
    have hm := (hWaits m).mp hm
    have hWaiting := hLedger.waiting m hm
    have hNode := hOther m (hNe m hm)
    refine ⟨?_, hWaiting.pos, hWaiting.created, hWaiting.no_fate, hWaiting.not_pooled,
      hWaiting.not_executed, ?_, ?_⟩
    · rw [hNode]
      exact hWaiting.untouched
    · rw [hNode]
      exact hWaiting.suits
    · rw [hNode]
      exact hWaiting.serializer
  · intro m hPos hCreated
    rw [hKeep (fun c => c.isDummy) (fun _ => rfl) m]
    obtain hDummy | hWait | ⟨fate, hFate⟩ := hLedger.settled m hPos hCreated
    · exact .inl hDummy
    · exact .inr (.inl ((hWaits m).mpr hWait))
    · refine .inr (.inr ⟨fate, hFate.once, ?_, hFate.executions, hFate.pooled⟩)
      rw [hKeep (fun c => c.shouldBranchCached) (fun _ => rfl) m]
      exact hFate.cached
  · intro m hm
    exact hLedger.running m (List.mem_of_mem_erase hm)
  · intro m hm
    rw [hKeep (fun c => c.arguments) (fun _ => rfl) m]
    exact hLedger.pool m hm
  · intro g hg m hm
    rw [hKeep (fun c => c.parent) (fun _ => rfl) m, hKeep (fun c => c.root) (fun _ => rfl) m]
    obtain hSome | hNil | ⟨hRoot, hState⟩ := A.spent g hg m hm
    · exact .inl hSome
    · cases hNil
    · refine .inr (.inr ⟨hRoot, ?_⟩)
      obtain rfl | hme := eq_or_ne m e.node
      · rw [hSelf]
        rintro ⟨⟩
      · rw [hOther m hme]
        exact hState
  · intro g hg m hm hWait c hOffered
    have hWait := (hWaits m).mp hWait
    rw [hOther m (hNe m hWait)] at hOffered
    exact A.fuel g hg m hm hWait c hOffered
  · rw [hLinks]
    exact A.layered

/-- What is known of the user's function on calls of depth up to `k`. -/
def Runs (far wide : Bool) (t : ThreadId) (k : ℕ) (body : Body) : Prop :=
  ∀ b S n c j, c.depth ≤ k → c.Suits far wide b.schedulerWorker →
    Live far wide t b S ⟨n, [], j⟩ [] →
    ∃ b' i, body c (some n) b = .ok b' ∧ Standing far wide t b' (S ++ [⟨n, [], i⟩])

variable {body : Body}

theorem Rooted.reframe {qs qs' : List NodeId} {k' : ℕ} (h : b.Rooted (F ++ [⟨p, qs, k⟩]))
    (F' : List Frame) : b.Rooted (F ++ [⟨p, qs', k'⟩] ++ F') := by
  intro g hg
  cases F with
  | nil =>
    cases hg
    exact h ⟨p, qs, k⟩ rfl
  | cons e F => exact h g hg

theorem Live.forward (hBody : Runs far wide t k body)
    (h : Live far wide t b (S ++ [f]) ⟨n, [], k⟩ [n]) (hn : ∀ e ∈ S ++ [f], n ∉ e.remaining) :
    ∃ b', forward body b n = .ok b' ∧ Ready far wide t b' S f [] fun _ => True := by
  obtain ⟨G, F, hStack, A, hRooted⟩ := h
  have hWait : b.Waits (F ++ [⟨n, [], k⟩]) [n] n := .inl List.mem_cons_self
  have hWaiting := A.ledger.waiting n hWait
  have hMem : (⟨n, [], k⟩ : Frame) ∈ G ++ (F ++ [⟨n, [], k⟩]) :=
    List.mem_append_right _ (List.mem_append_right _ List.mem_cons_self)
  have hJoin : G ++ (F ++ [⟨n, [], k⟩]) = S ++ [f, ⟨n, [], k⟩] := by
    rw [← List.append_assoc, hStack, List.append_assoc]
    rfl
  -- The tree is the same whether the node is run or not; it only stops waiting.
  have hResolved : ∀ {b' fate}, b.Resolves wide b' n fate → b.SameTree b' →
      Active far wide t b' G (F ++ [⟨n, [], k⟩]) [] ∧
        (wide = true → b'.Rooted (F ++ [⟨n, [], k⟩])) := by
    intro b' fate hResolves hTree
    refine ⟨A.resolve List.mem_cons_self hResolves hTree (A.innermost_not_pending hMem) ?_ ?_, ?_⟩
    · intro m
      constructor
      · rintro ⟨⟩
      · rintro ⟨hm, hmn⟩
        exact absurd (List.mem_singleton.mp hm) hmn
    · intro e he hne
      rw [← List.append_assoc, hStack] at he
      obtain he | he := List.mem_append.mp he
      · exact absurd hne (hn e he)
      · rw [List.mem_singleton.mp he] at hne
        cases hne
    · rw [Rooted, hTree.links]
      exact hRooted
  have hForward : Balancer.forward body b n =
      ((if (b.node n).shouldBranch.1 = true then run body (b.answer n) n
        else .ok ((b.answer n).settle n .discarded)) >>= fun b =>
          b.pruneAndCorrectRootAfterForward n) := by
    rw [Balancer.forward, if_pos hWaiting.untouched.state, shouldBranch_eq]
    cases (b.node n).shouldBranch.1 <;> rfl
  rw [hForward, A.ledger.shouldBranch hWait]
  cases hOffered : (b.node n).offered with
  | none =>
    obtain ⟨hResolves, hTree⟩ := A.ledger.forwardDiscarded hWait hOffered
    obtain ⟨A', hRooted'⟩ := hResolved hResolves hTree
    exact Standing.close ⟨G, _, hJoin, A', hRooted'⟩
  | some c =>
    obtain ⟨b₁, hRun, hResolves, hTree⟩ := A.ledger.start hWait hOffered body
    obtain ⟨A', hRooted'⟩ := hResolved hResolves hTree
    have hSuits : c.Suits far wide b₁.schedulerWorker := by
      rw [hResolves.worker]
      exact hWaiting.suits c hOffered
    obtain ⟨b₂, i, hOk, G', F', hStack', A₂, hRooted₂⟩ := hBody b₁ (S ++ [f]) n c k
      (A.fuel _ hMem n List.mem_cons_self hWait c hOffered) hSuits ⟨G, F, hStack, A', hRooted'⟩
    have hMem' : (⟨n, [], i⟩ : Frame) ∈ G' ++ F' := by
      rw [hStack']
      exact List.mem_append_right _ List.mem_cons_self
    obtain ⟨A₃, hLinks⟩ := A₂.finish hMem'
    have hRooted₃ := hRooted₂
    rw [Rooted, ← hLinks] at hRooted₃
    rw [hRun, hOk]
    refine Standing.close (k := i) ⟨G', F', ?_, A₃, hRooted₃⟩
    rw [hStack', List.append_assoc]
    rfl

theorem Ready.forward (hBody : Runs far wide t k body)
    (R : Ready far wide t b S ⟨p, n :: rest, k⟩ [] fun _ => True)
    (hn : ∀ e ∈ S ++ [⟨p, rest, k⟩], n ∉ e.remaining) :
    ∃ b', forward body b n = .ok b' ∧ Ready far wide t b' S ⟨p, rest, k⟩ [] fun _ => True := by
  obtain ⟨G, F, w, R⟩ := R
  have A := R.active
  have hMem : ∀ {e : Frame}, e ∈ S ++ [(⟨p, n :: rest, k⟩ : Frame)] →
      G ++ F = S ++ [⟨p, n :: rest, k⟩] ∨
      G = S ++ [⟨p, n :: rest, k⟩] → e ∈ G ++ F := by
    rintro e he (hGF | hG)
    · rw [hGF]
      exact he
    · rw [hG]
      exact List.mem_append_left _ he
  -- A child that is no longer linked was pushed at the root level.
  have hSkip : (b.node n).parent = none → n ∉ w →
      (⟨p, n :: rest, k⟩ : Frame) ∈ G ++ F → (b.node n).root = none ∧
        Balancer.forward body b n = .ok (b.pruned n) := by
    intro hParent hw hFrame
    obtain hSome | hnw | ⟨hRoot, hState⟩ := A.spent _ hFrame n List.mem_cons_self
    · rw [hParent] at hSome
      cases hSome
    · exact absurd hnw hw
    · refine ⟨hRoot, ?_⟩
      rw [Balancer.forward, if_neg hState, pruneAndCorrectRootAfterForward, hParent]
      exact prune_eq b n
  obtain ⟨hStack, rfl⟩ | ⟨y, hy, rfl, rfl, rfl⟩ := R.stack
  · have hFrame : (⟨p, n :: rest, k⟩ : Frame) ∈ G ++ F := by
      rw [hStack]
      exact List.mem_append_right _ List.mem_cons_self
    obtain rfl | ⟨F, e, rfl⟩ := List.eq_nil_or_concat F
    · rw [List.append_nil] at hStack
      subst hStack
      have hPassed := A.tree.passed ⟨p, n :: rest, k⟩ (List.mem_append_right _ List.mem_cons_self)
      have hParent := hPassed.2 n List.mem_cons_self
      obtain ⟨hRoot, hOk⟩ := hSkip hParent List.not_mem_nil hFrame
      refine ⟨_, hOk, _, [], [], (A.advance_passed.skip hParent hRoot).1, fun _ => rooted_nil,
        .inl ⟨?_, rfl⟩, fun _ _ => trivial⟩
      rw [List.append_nil]
    · have hRooted := R.rooted
      rw [List.concat_eq_append] at hStack A hRooted
      rw [← List.append_assoc] at hStack
      obtain ⟨rfl, he⟩ := List.append_inj' hStack rfl
      cases he
      cases hParent : (b.node n).parent with
      | none =>
        obtain ⟨hRoot, hOk⟩ := hSkip hParent List.not_mem_nil hFrame
        obtain ⟨A', hRooted'⟩ := (A.advance hParent).skip hParent hRoot
        refine ⟨_, hOk, G, F ++ [⟨p, rest, k⟩], [], A', fun hWide => hRooted' ?_,
          .inl ⟨?_, rfl⟩, fun _ _ => trivial⟩
        · rw [← List.append_nil (F ++ _)]
          exact (hRooted hWide).reframe []
        · rw [List.append_assoc]
      | some q =>
        have A' := A.descend (by rw [hParent]; rfl)
        refine Live.forward hBody ⟨G, F ++ [⟨p, rest, k⟩], ?_, A', fun hWide => ?_⟩ hn
        · rw [List.append_assoc]
        · exact (hRooted hWide).reframe _
  · have A' := A.advance_passed
    have hFrame : (⟨p, n :: rest, k⟩ : Frame) ∈ (S ++ [⟨p, n :: rest, k⟩]) ++ [⟨y, [], k⟩] :=
      List.mem_append_left _ (List.mem_append_right _ List.mem_cons_self)
    obtain rfl | hy := List.mem_cons.mp hy
    · exact Live.forward hBody ⟨S ++ [⟨p, rest, k⟩], [], List.append_nil _, A', R.rooted⟩ hn
    · have hny : n ≠ y := by
        rintro rfl
        exact hn ⟨p, rest, k⟩ (List.mem_append_right _ List.mem_cons_self) hy
      have hPassed := A.tree.passed ⟨p, n :: rest, k⟩ (List.mem_append_right _ List.mem_cons_self)
      have hParent := hPassed.2 n List.mem_cons_self
      obtain ⟨hRoot, hOk⟩ := hSkip hParent (fun h => hny (List.mem_singleton.mp h)) hFrame
      obtain ⟨A'', hRooted'⟩ := A'.skip hParent hRoot
      exact ⟨_, hOk, _, _, _, A'', fun hWide => hRooted' (R.rooted hWide),
        .inr ⟨y, hy, rfl, rfl, rfl⟩, fun _ _ => trivial⟩

end Balancer

end Gempba
