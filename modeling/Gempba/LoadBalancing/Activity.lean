import Gempba.LoadBalancing.Resolution
import Gempba.LoadBalancing.ThreadTree

/-!
# What holds while the calls of a thread are active

The tree of the thread, the ledger and the active calls together, and what
re-rooting, picking and submitting do to them. `w` are the nodes that wait
without being linked as pending: the one being submitted, and one just taken
off the root level.
-/

namespace Gempba

set_option autoImplicit false

open NodeCore Spine Gempba.Frame

/-- Each level lies one deeper than the one above. -/
def Layered (depth : NodeId → ℕ) : List Level → Prop
  | [] => True
  | (z, ps) :: M => (∀ n ∈ lead M ++ ps, depth n = depth z + 1) ∧ Layered depth M

namespace Balancer

def Waits (b : Balancer) (F : List Frame) (w : List NodeId) (n : NodeId) : Prop :=
  n ∈ w ∨ n ∈ pendings (levels b.links F)

/-- The calls `G ++ F` are active on thread `t`, and its spine starts at the first of `F`. -/
structure Active (far wide : Bool) (t : ThreadId) (b : Balancer) (G F : List Frame)
    (w : List NodeId) : Prop where
  tree : ThreadTree b.links b.roots t G F
  ledger : b.Ledger far wide (b.Waits F w)
  spent : ∀ f ∈ G ++ F, ∀ n ∈ f.remaining, (b.node n).parent.isSome ∨ n ∈ w ∨
    (b.node n).root = none ∧ (b.node n).state ≠ .unused
  created : ∀ f ∈ G ++ F, ∀ n ∈ f.node :: f.remaining, 0 < n ∧ n ≤ b.uniqueIdCounter
  fuel : ∀ f ∈ G ++ F, ∀ n ∈ f.node :: f.remaining, b.Waits F w n →
    ∀ c, (b.node n).offered = some c → c.depth ≤ f.fuel
  layered : Layered b.depth (levels b.links F)

/-- The root of the thread does not have exactly one child. -/
def Rooted (b : Balancer) (F : List Frame) : Prop :=
  ∀ f ∈ F.head?, (b.links f.node).children.length ≠ 1

/-- A node is made the root of its thread. -/
def rooted (b : Balancer) (n : NodeId) : Balancer :=
  (b.setRoot (b.node n).threadId n).modify n fun m => { m with parent := none }

variable {far wide : Bool} {t : ThreadId} {b b' : Balancer} {G G' F F' : List Frame}
  {f g x : Frame} {n s y : NodeId} {w : List NodeId}

theorem makeRoot_eq : b.makeRoot n = .ok (b.rooted n) := setParent_none

theorem links_rooted : (b.rooted n).links = cut b.links n := by
  funext m
  obtain rfl | hmn := eq_or_ne m n
  · rw [cut, Function.update_self]
    exact congrArg NodeCore.links (modify_node_self _)
  · rw [cut, Function.update_of_ne hmn]
    exact congrArg NodeCore.links (modify_node_of_ne _ hmn)

theorem pruned_cases {P : NodeId → NodeCore Call → Prop}
    (hSelf : P n { b.node n with root := none, parent := none, children := [] })
    (hParent : ∀ p, p ≠ n → (b.node n).parent = some p →
      P p { b.node p with children := (b.node p).children.filter (· != n) })
    (hOther : ∀ m, m ≠ n → (b.node n).parent ≠ some m → P m (b.node m)) (m : NodeId) :
    P m ((b.pruned n).node m) := by
  obtain rfl | hmn := eq_or_ne m n
  · rw [pruned_node_self]
    exact hSelf
  · obtain hp | hp := eq_or_ne (b.node n).parent (some m)
    · rw [pruned_node_parent hp hmn]
      exact hParent m hmn hp
    · rw [pruned_node_of_ne hmn hp]
      exact hOther m hmn hp

theorem links_pruned : (b.pruned n).links = Spine.pruned b.links n := by
  funext m
  apply pruned_cases (P := fun m c => c.links = Spine.pruned b.links n m)
  · exact (Spine.pruned_self (h := b.links)).symm
  · intro p hpn hp
    exact (Spine.pruned_parent (h := b.links) hp hpn).symm
  · intro m hmn hp
    exact (Spine.pruned_of_ne (h := b.links) hmn hp).symm

theorem relinked_rooted : b.Relinked (b.rooted n) := by
  refine ⟨?_, rfl, ?_⟩
  · intro m
    obtain rfl | hmn := eq_or_ne m n
    · exact (congrArg unlinked (modify_node_self _)).trans rfl
    · exact congrArg unlinked (modify_node_of_ne _ hmn)
  · intro m hm
    obtain rfl | hmn := eq_or_ne m n
    · exact (congrArg NodeCore.root (modify_node_self _)).trans hm
    · exact (congrArg NodeCore.root (modify_node_of_ne _ hmn)).trans hm

theorem relinked_pruned : b.Relinked (b.pruned n) := by
  refine ⟨?_, rfl, ?_⟩
  · exact pruned_cases (P := fun m c => c.unlinked = (b.node m).unlinked) rfl (fun _ _ _ => rfl)
      fun _ _ _ => rfl
  · exact pruned_cases (P := fun m c => (b.node m).root = none → c.root = none) (fun _ => rfl)
      (fun _ _ _ hm => hm) fun _ _ _ hm => hm

/-- The calls stay active when only links change, and no child that still has to be handed over
loses its parent unnoticed. -/
theorem Active.relink (A : Active far wide t b G F w) (h : b.Relinked b')
    (T : ThreadTree b'.links b'.roots t G' F') {w' : List NodeId}
    (hFrames : ∀ f ∈ G' ++ F', f ∈ G ++ F)
    (hWaits : ∀ n, b'.Waits F' w' n ↔ b.Waits F w n)
    (hParent : ∀ f ∈ G' ++ F', ∀ n ∈ f.remaining, (b.node n).parent.isSome →
      (b'.node n).parent.isSome ∨ n ∈ w') (hw : ∀ n ∈ w, n ∈ w')
    (hLayered : Layered b.depth (levels b'.links F')) : Active far wide t b' G' F' w' := by
  refine ⟨T, ?_, ?_, ?_, ?_, ?_⟩
  · exact (A.ledger.relink h).congr fun n => (hWaits n).symm
  · intro f hf n hn
    obtain hSome | hn' | ⟨hRoot, hState⟩ := A.spent f (hFrames f hf) n hn
    · obtain hSome | hn' := hParent f hf n hn hSome
      · exact .inl hSome
      · exact .inr (.inl hn')
    · exact .inr (.inl (hw n hn'))
    · refine .inr (.inr ⟨h.root n hRoot, ?_⟩)
      rw [h.state]
      exact hState
  · intro f hf n hn
    rw [h.uniqueIdCounter]
    exact A.created f (hFrames f hf) n hn
  · intro f hf n hn hWait c hOffered
    rw [h.offered] at hOffered
    exact A.fuel f (hFrames f hf) n hn ((hWaits n).mp hWait) c hOffered
  · rw [h.depth]
    exact hLayered

theorem Active.node_not_pending (A : Active far wide t b G F w) (hg : g ∈ F) :
    g.node ∉ pendings (levels b.links F) := by
  intro hn
  obtain ⟨f, hf, hn⟩ := mem_pendings_levels.mp hn
  exact A.tree.node_not_pending hf hg hn

/-- The links and roots after the root has moved from `n` to its child `y`. -/
theorem tree_lowered {F' : List Frame} (hThread : (b.links y).threadId = t)
    (T : ThreadTree (Spine.pruned (cut b.links y) n) (Function.update b.roots t (some y)) t G' F') :
    ThreadTree ((b.rooted y).pruned n).links ((b.rooted y).pruned n).roots t G' F' := by
  rw [links_pruned, links_rooted]
  rw [← hThread] at T ⊢
  exact T

theorem Active.lower (A : Active far wide t b G (f :: g :: F) w)
    (hf : f.pending b.links = []) :
    Active far wide t ((b.rooted g.node).pruned f.node) (G ++ [f]) (g :: F) w ∧
      b.Relinked ((b.rooted g.node).pruned f.node) ∧
      levels ((b.rooted g.node).pruned f.node).links (g :: F) = levels b.links (g :: F) := by
  obtain ⟨T, hCut⟩ := A.tree.lower hf
  have hThread : (b.links g.node).threadId = t := by
    obtain ⟨-, -, hg, -⟩ := A.tree.path
    rw [hg]
  have hg : g.node ∉ pendings (levels b.links (f :: g :: F)) :=
    A.node_not_pending (List.mem_cons_of_mem _ List.mem_cons_self)
  have hLinks : ((b.rooted g.node).pruned f.node).links =
      Spine.pruned (cut b.links g.node) f.node := by
    rw [links_pruned, links_rooted]
  have hLevels : levels ((b.rooted g.node).pruned f.node).links (g :: F) =
      levels b.links (g :: F) := by
    rw [hLinks]
    apply hCut.levels
    intro e he hge
    exact hg (mem_pendings_levels.mpr ⟨e, List.mem_cons_of_mem _ he, hge⟩)
  have hRelinked : b.Relinked ((b.rooted g.node).pruned f.node) :=
    relinked_rooted.trans relinked_pruned
  refine ⟨A.relink hRelinked (tree_lowered hThread T) ?_ ?_ ?_ (fun _ hn => hn) ?_, hRelinked,
    hLevels⟩
  · intro e he
    rw [List.append_assoc] at he
    exact he
  · intro n
    rw [Waits, Waits, hLevels]
    have hPendings :
        pendings (levels b.links (f :: g :: F)) = pendings (levels b.links (g :: F)) := by
      rw [levels, List.map_cons, pendings_cons, level, hf]
      rfl
    rw [hPendings]
  · intro e he n hn hParent
    rw [List.append_assoc] at he
    rw [← hLinks] at hCut
    obtain hParent | ⟨-, hg'⟩ := A.tree.keeps hCut e he n hn hParent
    · exact .inl hParent
    · exact absurd hg' hg
  · rw [hLevels]
    exact A.layered.2

/-- The root moves from a call without children on the spine to its only pending child. -/
theorem Active.lowerToPending (A : Active far wide t b G [f] w) (hf : f.pending b.links = [y]) :
    Active far wide t ((b.rooted y).pruned f.node) (G ++ [f]) [⟨y, [], f.fuel⟩] (y :: w) ∧
      b.Relinked ((b.rooted y).pruned f.node) ∧ y ∈ f.remaining := by
  obtain ⟨T, hCut⟩ := A.tree.lowerToPending hf f.fuel
  have hy : y ∈ f.pending b.links := by
    rw [hf]
    exact List.mem_singleton_self y
  have hThread : (b.links y).threadId = t := by
    obtain ⟨-, hPending, -⟩ := A.tree.path
    rw [hPending y hy]
  have hLinks : ((b.rooted y).pruned f.node).links = Spine.pruned (cut b.links y) f.node := by
    rw [links_pruned, links_rooted]
  have hRelinked : b.Relinked ((b.rooted y).pruned f.node) :=
    relinked_rooted.trans relinked_pruned
  have hWaits : ∀ n, Waits ((b.rooted y).pruned f.node) [⟨y, [], f.fuel⟩] (y :: w) n ↔
      b.Waits [f] w n := by
    intro n
    have hBefore : pendings (levels b.links [f]) = [y] := by
      rw [levels, List.map_singleton, pendings_cons, level, hf]
      rfl
    rw [Waits, Waits, hBefore, List.mem_cons, List.mem_singleton]
    simp [levels, level, Frame.pending, or_comm]
  have hyMem := (mem_pending.mp hy).1
  refine ⟨⟨tree_lowered hThread T, ?_, ?_, ?_, ?_, ?_⟩, hRelinked, hyMem⟩
  · exact (A.ledger.relink hRelinked).congr fun n => (hWaits n).symm
  · intro e he n hn
    obtain he | he := List.mem_append.mp he
    · obtain hParent | hw | ⟨hRoot, hState⟩ := A.spent e he n hn
      · rw [← hLinks] at hCut
        obtain hParent | ⟨rfl, -⟩ := A.tree.keeps hCut e he n hn hParent
        · exact .inl hParent
        · exact .inr (.inl List.mem_cons_self)
      · exact .inr (.inl (List.mem_cons_of_mem _ hw))
      · refine .inr (.inr ⟨hRelinked.root n hRoot, ?_⟩)
        rw [hRelinked.state]
        exact hState
    · rw [List.mem_singleton.mp he] at hn
      cases hn
  · intro e he n hn
    rw [hRelinked.uniqueIdCounter]
    obtain he | he := List.mem_append.mp he
    · exact A.created e he n hn
    · rw [List.mem_singleton.mp he] at hn
      rw [List.mem_singleton.mp hn]
      exact A.created f (List.mem_append_right _ List.mem_cons_self) y
        (List.mem_cons_of_mem _ hyMem)
  · intro e he n hn hWait c hOffered
    rw [hRelinked.offered] at hOffered
    have hWait := (hWaits n).mp hWait
    obtain he | he := List.mem_append.mp he
    · exact A.fuel e he n hn hWait c hOffered
    · rw [List.mem_singleton.mp he] at hn ⊢
      rw [List.mem_singleton.mp hn] at hWait hOffered
      exact A.fuel f (List.mem_append_right _ List.mem_cons_self) y
        (List.mem_cons_of_mem _ hyMem) hWait c hOffered
  · exact ⟨(by rintro _ ⟨⟩), trivial⟩

theorem lowerRoot_single {root : NodeId} (hChildren : (b.node root).children = [y]) (k : ℕ) :
    lowerRoot (k + 1) root n b =
      if y = n ∨ 2 ≤ (((b.rooted y).pruned root).node y).childrenCount
      then .ok ((b.rooted y).pruned root)
      else lowerRoot k y n ((b.rooted y).pruned root) := by
  rw [lowerRoot, hChildren]
  change (b.makeRoot y >>= fun b => _) = _
  rw [makeRoot_eq]
  change ((b.rooted y).prune root >>= fun b => _) = _
  rw [prune_eq]
  rfl

theorem lowerRoot_of_ne {root : NodeId} (hChildren : ∀ y, (b.node root).children ≠ [y]) (k : ℕ) :
    lowerRoot (k + 1) root n b = .ok b := by
  rw [lowerRoot]
  split
  · rename_i hSingle
    exact absurd hSingle (hChildren _)
  · rfl

theorem Active.children (A : Active far wide t b G (f :: F) w) :
    (b.node f.node).children = lead (levels b.links F) ++ f.pending b.links :=
  congrArg (fun l => l.children) A.tree.head

theorem Active.childrenCount (A : Active far wide t b G (f :: g :: F) w) :
    (b.node f.node).childrenCount = (f.pending b.links).length + 1 := by
  rw [NodeCore.childrenCount, A.children, List.length_append]
  exact Nat.add_comm _ _

theorem Active.rooted (A : Active far wide t b G (f :: g :: F) w)
    (hf : f.pending b.links ≠ []) : b.Rooted (f :: g :: F) := by
  intro e he hOne
  cases he
  have hCount : (f.pending b.links).length + 1 = 1 := A.childrenCount.symm.trans hOne
  exact hf (List.length_eq_zero_iff.mp (Nat.succ.inj hCount))

theorem Active.pending_ne_nil (A : Active far wide t b G (f :: g :: F) w)
    (h : b.Rooted (f :: g :: F)) : f.pending b.links ≠ [] := by
  intro hf
  apply h f rfl
  have hCount := A.childrenCount
  rw [hf] at hCount
  exact hCount

theorem Active.rooted_singleton (A : Active far wide t b G [f] w)
    (hf : f.pending b.links = []) : b.Rooted [f] := by
  intro e he hOne
  cases he
  have hChildren : (b.links f.node).children = f.pending b.links := A.children
  rw [hChildren, hf] at hOne
  cases hOne

theorem rooted_nil : b.Rooted [] := (by rintro _ ⟨⟩)

/-- Where re-rooting from `x` may end: the root is `x`, or it has a pending child. -/
structure Corrected (far wide : Bool) (t : ThreadId) (b : Balancer) (G F : List Frame) (x : Frame)
    (w : List NodeId) (b' : Balancer) (G' F' : List Frame) : Prop where
  active : Active far wide t b' G' (F' ++ [x]) w
  rooted : F = [] ∨ x.pending b.links = [] ∨ b.Rooted (F ++ [x]) → b'.Rooted (F' ++ [x])
  frames : G' ++ F' = G ++ F
  relinked : b.Relinked b'
  pendings : pendings (levels b'.links (F' ++ [x])) = pendings (levels b.links (F ++ [x]))

/-- The loop of `try_correct_root`, from a root above the node that it is called for. The
induction is on the nodes between the two. -/
theorem Active.lowerRoot (A : Active far wide t b G (f :: (F ++ [x])) w) {k : ℕ}
    (hk : F.length < k) : ∃ b' G' F', Balancer.lowerRoot k f.node x.node b = .ok b' ∧
      Corrected far wide t b G (f :: F) x w b' G' F' := by
  induction F generalizing f G b k with
  | nil =>
    obtain ⟨k, rfl⟩ := Nat.exists_eq_add_one_of_ne_zero (Nat.ne_of_gt hk)
    have hChildren := A.children
    cases hf : f.pending b.links with
    | nil =>
      obtain ⟨A', hRelinked, hLevels⟩ := A.lower hf
      rw [hf] at hChildren
      refine ⟨_, G ++ [f], [], ?_, A', ?_, ?_, hRelinked, ?_⟩
      · rw [lowerRoot_single hChildren, if_pos (.inl rfl)]
        rfl
      · rintro (hF | hx | hRooted)
        · cases hF
        · exact A'.rooted_singleton ((congrArg Prod.snd (List.cons.inj hLevels).1).trans hx)
        · exact absurd hf (A.pending_ne_nil hRooted)
      · rw [List.append_nil]
      · have hTop : levels b.links ([f] ++ [x]) = (f.node, []) :: levels b.links [x] := by
          rw [← hf]
          rfl
        rw [hTop]
        change Spine.pendings (levels _ [x]) = Spine.pendings (levels b.links [x])
        rw [hLevels]
    | cons p ps =>
      rw [hf] at hChildren
      refine ⟨b, G, [f], ?_, A, ?_, rfl, .refl b, rfl⟩
      · apply lowerRoot_of_ne
        intro y hy
        rw [hChildren] at hy
        cases hy
      · refine fun _ => A.rooted ?_
        rw [hf]
        rintro ⟨⟩
  | cons g F ih =>
    obtain ⟨k, rfl⟩ := Nat.exists_eq_add_one_of_ne_zero (Nat.ne_zero_of_lt hk)
    have hChildren := A.children
    cases hf : f.pending b.links with
    | nil =>
      obtain ⟨A', hRelinked, hLevels⟩ := A.lower hf
      have hSingle : (b.node f.node).children = [g.node] := by
        rw [hChildren, hf]
        rfl
      have hPendings : Spine.pendings (levels b.links (f :: g :: F ++ [x])) =
          Spine.pendings (levels b.links (g :: F ++ [x])) := by
        have hTop : levels b.links (f :: g :: F ++ [x]) =
            (f.node, []) :: levels b.links (g :: F ++ [x]) := by
          rw [← hf]
          rfl
        rw [hTop]
        rfl
      have hFrames : (G ++ [f]) ++ (g :: F) = G ++ (f :: g :: F) := by
        rw [List.append_assoc]
        rfl
      rw [lowerRoot_single hSingle]
      rcases Nat.lt_or_ge (((b.rooted g.node).pruned f.node).node g.node).childrenCount 2
        with hCount | hCount
      · obtain ⟨b', G', F', hOk, C⟩ := ih A' (k := k) (by simpa using hk)
        have hgx : ¬(g.node = x.node ∨
            2 ≤ (((b.rooted g.node).pruned f.node).node g.node).childrenCount) := by
          rintro (hgx | h)
          · exact ThreadTree.node_ne_of_mem A.tree.tail_nodup
              (List.mem_append_right _ List.mem_cons_self) hgx
          · omega
        refine ⟨b', G', F', ?_, C.active, ?_, C.frames.trans hFrames,
          hRelinked.trans C.relinked, ?_⟩
        · rw [if_neg hgx]
          exact hOk
        · rintro (hF | hx | hRooted)
          · cases hF
          · refine C.rooted (.inr (.inl ?_))
            have hMap := congrArg List.getLast? hLevels
            have hLast : (g :: (F ++ [x])).getLast? = some x := List.getLast?_concat (l := g :: F)
            rw [levels, levels, List.getLast?_map, List.getLast?_map] at hMap
            rw [show (g :: F.append [x]).getLast? = some x from hLast] at hMap
            exact (congrArg Prod.snd (Option.some.inj hMap)).trans hx
          · exact absurd hf (A.pending_ne_nil hRooted)
        · rw [hPendings, C.pendings]
          exact congrArg _ hLevels
      · refine ⟨_, G ++ [f], g :: F, if_pos (.inr hCount), A', ?_, hFrames, hRelinked, ?_⟩
        · intro _ e he hOne
          cases he
          exact absurd (Nat.le_trans hCount (Nat.le_of_eq hOne)) (by decide)
        · rw [hPendings]
          exact congrArg _ hLevels
    | cons p ps =>
      rw [hf] at hChildren
      refine ⟨b, G, f :: g :: F, ?_, A, ?_, rfl, .refl b, rfl⟩
      · apply lowerRoot_of_ne
        intro y hy
        rw [hChildren] at hy
        cases hy
      · refine fun _ => A.rooted ?_
        rw [hf]
        rintro ⟨⟩

theorem Active.last (A : Active far wide t b G (F ++ [x]) w) : (b.node x.node).root = some t :=
  A.tree.path.root (mem_ids_levels (List.mem_append_right _ List.mem_cons_self) List.mem_cons_self)

theorem Active.getRoot (A : Active far wide t b G (f :: F) w)
    (hRoot : (b.node n).root = some t) : b.getRoot n = some f.node := by
  rw [Balancer.getRoot, hRoot]
  exact A.tree.slot f rfl

theorem length_le_of_created {l : List ℕ} {k : ℕ} (hNodup : l.Nodup)
    (h : ∀ n ∈ l, 0 < n ∧ n ≤ k) : l.length ≤ k := by
  have hRange : l ⊆ List.range' 1 k := by
    intro n hn
    obtain ⟨hPos, hLe⟩ := h n hn
    exact List.mem_range'_1.mpr ⟨hPos, by omega⟩
  have hLength := (List.subperm_of_subset hNodup hRange).length_le
  rwa [List.length_range'] at hLength

/-- The nodes on the spine are distinct and were created, so they are not more than the counter. -/
theorem Active.length_le (A : Active far wide t b G F w) : F.length ≤ b.uniqueIdCounter := by
  have hNodup : (F.map Frame.node).Nodup := by
    refine A.tree.nodup.sublist ?_
    clear A
    induction F with
    | nil => exact .slnil
    | cons f F ih => exact .cons_cons _ (ih.trans (List.sublist_append_right _ _))
  rw [← List.length_map (f := Frame.node)]
  apply length_le_of_created hNodup
  intro n hn
  obtain ⟨f, hf, rfl⟩ := List.mem_map.mp hn
  exact A.created f (List.mem_append_right _ hf) f.node List.mem_cons_self

theorem Active.pendings_length_le (A : Active far wide t b G F w) :
    (pendings (levels b.links F)).length ≤ b.uniqueIdCounter := by
  have hNodup : (pendings (levels b.links F)).Nodup := by
    refine A.tree.nodup.sublist ?_
    generalize levels b.links F = M
    induction M with
    | nil => exact .slnil
    | cons l M ih => exact ((List.sublist_cons_self _ _).append ih)
  apply length_le_of_created hNodup
  intro n hn
  obtain ⟨f, hf, hn⟩ := mem_pendings_levels.mp hn
  exact A.created f (List.mem_append_right _ hf) n
    (List.mem_cons_of_mem _ (mem_pending.mp hn).1)

/-- `try_correct_root` on the innermost node of the spine does not throw. It leaves the root at
that node or at one with a pending child; when the node is the root and has a single child left,
that child becomes the root. -/
theorem Active.tryCorrectRoot (A : Active far wide t b G (F ++ [x]) w) :
    ∃ b', b.tryCorrectRoot x.node = .ok b' ∧
      ((∃ G' F', Corrected far wide t b G F x w b' G' F') ∨
        ∃ y ∈ x.remaining, F = [] ∧ x.pending b.links = [y] ∧ b.Relinked b' ∧
          Active far wide t b' (G ++ [x]) [⟨y, [], x.fuel⟩] (y :: w)) := by
  have hLength := A.length_le
  cases F with
  | nil =>
    have hRoot : b.getRoot x.node = some x.node := A.getRoot A.last
    have hChildren : (b.node x.node).children = x.pending b.links := A.children
    have hDone : (x.pending b.links).length ≠ 1 →
        ∃ G' F', Corrected far wide t b G [] x w b G' F' := by
      intro hx
      refine ⟨G, [], A, fun _ e he hOne => ?_, rfl, .refl b, rfl⟩
      cases he
      exact hx ((congrArg List.length hChildren).symm.trans hOne)
    rw [Balancer.tryCorrectRoot, hRoot]
    simp only [NodeCore.childrenCount, hChildren]
    match hx : x.pending b.links with
    | [] => exact ⟨b, by simp, .inl (hDone (by simp [hx]))⟩
    | [y] =>
      obtain ⟨A', hRelinked, hy⟩ := A.lowerToPending hx
      have hLeaf : (((b.rooted y).pruned x.node).node y).children = [] := A'.children
      obtain ⟨k, hk⟩ : ∃ k, b.uniqueIdCounter = k + 1 :=
        Nat.exists_eq_add_one_of_ne_zero (Nat.ne_zero_of_lt hLength)
      refine ⟨(b.rooted y).pruned x.node, ?_, .inr ⟨y, hy, by simp, rfl, hRelinked, A'⟩⟩
      rw [if_neg (by simp), if_neg (by simp), lowerRoot_single (hChildren.trans hx), hk,
        lowerRoot_of_ne (by simp [hLeaf]), ite_self]
    | y :: z :: ps => exact ⟨b, by simp, .inl (hDone (by simp [hx]))⟩
  | cons f F =>
    have hRoot : b.getRoot x.node = some f.node := A.getRoot A.last
    have hCount : (b.node f.node).childrenCount = (f.pending b.links).length + 1 := by
      cases F with
      | nil => exact A.childrenCount
      | cons g F => exact A.childrenCount
    rw [Balancer.tryCorrectRoot, hRoot]
    simp only [hCount]
    rw [if_neg (by omega)]
    obtain hLt | hGe := Nat.lt_or_ge ((f.pending b.links).length + 1) 2
    · rw [if_neg (by omega)]
      obtain ⟨b', G', F', hOk, C⟩ := A.lowerRoot (k := b.uniqueIdCounter + 1) (by
        simp only [List.length_append, List.length_cons] at hLength
        omega)
      exact ⟨b', hOk, .inl ⟨G', F', C⟩⟩
    · rw [if_pos hGe]
      refine ⟨b, rfl, .inl ⟨G, f :: F, A, fun _ e he hOne => ?_, rfl, .refl b, rfl⟩⟩
      cases he
      rw [← hCount] at hGe
      exact absurd (Nat.le_trans hGe (Nat.le_of_eq hOne)) (by decide)

end Balancer

end Gempba
