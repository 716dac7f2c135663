import Gempba.LoadBalancing.Submitting

/-!
# Sending and closing

A node leaves the tree when it has been submitted or forwarded. Afterwards
the call that holds it can go on with its remaining children: its own node is
still on the spine or left behind, or the next of the children has become the
root of the thread.
-/

namespace Gempba

set_option autoImplicit false

open NodeCore Spine Gempba.Frame

theorem Layered.of_append {depth : NodeId → ℕ} {L M : List Level} (h : Layered depth (L ++ M)) :
    Layered depth L := by
  induction L with
  | nil => trivial
  | cons l L ih =>
    refine ⟨fun n hn => h.1 n ?_, ih h.2⟩
    obtain hn | hn := List.mem_append.mp hn
    · apply List.mem_append_left _
      cases L with
      | nil => cases hn
      | cons m L => exact hn
    · exact List.mem_append_right _ hn

namespace Balancer

variable {far wide : Bool} {t : ThreadId} {b b' : Balancer} {G G' F F' S : List Frame}
  {f g x : Frame} {n s y : NodeId} {w : List NodeId} {route : Route} {fate : Fate} {k : ℕ}

/-- The call `f`, the innermost of `S ++ [f]`, can go on: with the active calls as they are, or
with one of its remaining children as the root of the thread. The nodes that wait are in `W`. -/
structure Resumes (far wide : Bool) (t : ThreadId) (b : Balancer) (S : List Frame) (f : Frame)
    (w : List NodeId) (W : NodeId → Prop) (G F : List Frame) (w' : List NodeId) : Prop where
  active : Active far wide t b G F w'
  rooted : wide = true → b.Rooted F
  stack : G ++ F = S ++ [f] ∧ w' = w ∨
    ∃ y ∈ f.remaining, G = S ++ [f] ∧ F = [⟨y, [], f.fuel⟩] ∧ w' = y :: w
  waits : ∀ m, b.Waits F w' m → W m

def Ready (far wide : Bool) (t : ThreadId) (b : Balancer) (S : List Frame) (f : Frame)
    (w : List NodeId) (W : NodeId → Prop) : Prop :=
  ∃ G F w', Resumes far wide t b S f w W G F w'

theorem Active.forget (A : Active far wide t b G F w) (h : pendings (levels b.links F) = []) :
    Active far wide t b G [] w := by
  have hFrames : ∀ f ∈ G ++ [], f ∈ G ++ F := by
    intro f hf
    rw [List.append_nil] at hf
    exact List.mem_append_left _ hf
  have hWaits : ∀ n, b.Waits [] w n ↔ b.Waits F w n := by
    intro n
    rw [Waits, Waits, h]
    rfl
  refine ⟨⟨trivial, List.nodup_nil, (by rintro _ ⟨⟩), A.tree.passed⟩, ?_, ?_, ?_, ?_, trivial⟩
  · exact A.ledger.congr fun n => (hWaits n).symm
  · exact fun f hf => A.spent f (hFrames f hf)
  · exact fun f hf => A.created f (hFrames f hf)
  · exact fun f hf n hn hWait => A.fuel f (hFrames f hf) n hn ((hWaits n).mp hWait)

theorem Active.pruneLoose (A : Active far wide t b G [] w) (hn : (b.node n).parent = none) :
    Active far wide t (b.pruned n) G [] w := by
  have hCut := CutAt.pruned b.links n
  rw [← links_pruned] at hCut
  have T := A.tree.closeTop hn
  rw [← links_pruned] at T
  refine A.relink relinked_pruned T (fun _ hf => hf) (fun _ => Iff.rfl) ?_ (fun _ hm => hm) trivial
  intro f hf m hm hParent
  obtain hParent | ⟨-, hPending⟩ := A.tree.keeps hCut f hf m hm hParent
  · exact .inl hParent
  · cases hPending

theorem Active.dropPassed (A : Active far wide t b (G ++ [g]) F w) :
    Active far wide t b G F w := by
  have hFrames : ∀ f ∈ G ++ F, f ∈ G ++ [g] ++ F := by
    intro f hf
    obtain hf | hf := List.mem_append.mp hf
    · exact List.mem_append_left _ (List.mem_append_left _ hf)
    · exact List.mem_append_right _ hf
  exact ⟨A.tree.ofPassed, A.ledger, fun f hf => A.spent f (hFrames f hf),
    fun f hf => A.created f (hFrames f hf), fun f hf => A.fuel f (hFrames f hf), A.layered⟩

/-- The innermost call, with no child left, is pruned off the spine. -/
theorem Active.close (A : Active far wide t b G (F ++ [f, ⟨n, [], k⟩]) w) :
    Active far wide t (b.pruned n) G (F ++ [f]) w ∧
      (∀ m, (b.pruned n).Waits (F ++ [f]) w m ↔ b.Waits (F ++ [f, ⟨n, [], k⟩]) w m) := by
  obtain ⟨T, hLevels⟩ := A.tree.close (g := ⟨n, [], k⟩) rfl
  rw [← links_pruned] at T hLevels
  have hSplit : levels b.links (F ++ [f, ⟨n, [], k⟩]) = levels b.links (F ++ [f]) ++ [(n, [])] := by
    rw [List.append_cons, ThreadTree.levels_append]
    rfl
  have hWaits : ∀ m, (b.pruned n).Waits (F ++ [f]) w m ↔
      b.Waits (F ++ [f, ⟨n, [], k⟩]) w m := by
    intro m
    rw [Waits, Waits, hLevels, hSplit, pendings_append]
    simp
  have hCut := CutAt.pruned b.links n
  rw [← links_pruned] at hCut
  have hFrames : ∀ e ∈ G ++ (F ++ [f]), e ∈ G ++ (F ++ [f, ⟨n, [], k⟩]) := by
    intro e he
    rw [List.append_cons]
    obtain he | he := List.mem_append.mp he
    · exact List.mem_append_left _ he
    · exact List.mem_append_right _ (List.mem_append_left _ he)
  refine ⟨A.relink relinked_pruned T hFrames hWaits ?_ (fun _ hm => hm) ?_, hWaits⟩
  · intro e he m hm hParent
    obtain hParent | ⟨-, hPending⟩ := A.tree.keeps hCut e (hFrames e he) m hm hParent
    · exact .inl hParent
    · exact absurd hPending (A.node_not_pending (g := ⟨n, [], k⟩)
        (List.mem_append_right _ (List.mem_cons_of_mem _ List.mem_cons_self)))
  · have hLayered := A.layered
    rw [hSplit] at hLayered
    rw [hLevels]
    exact hLayered.of_append

/-- After a node was pruned off the spine the root is corrected from its parent. -/
theorem Active.closeAndCorrect (A : Active far wide t b G (F ++ [f, ⟨n, [], k⟩]) w)
    (hRooted : wide = true → b.Rooted (F ++ [f, ⟨n, [], k⟩])) :
    ∃ b', (b.pruned n).tryCorrectRoot f.node = .ok b' ∧ b'.depth = b.depth ∧
      Ready far wide t b' (G ++ F) f w (b.Waits (F ++ [f, ⟨n, [], k⟩]) w) := by
  obtain ⟨A', hWaits⟩ := A.close
  obtain ⟨b', hCorrect, hCase⟩ := A'.tryCorrectRoot
  obtain ⟨G', F', C⟩ | ⟨y, hy, rfl, hf, hRelinked, A''⟩ := hCase
  · refine ⟨b', hCorrect, C.relinked.depth, G', F' ++ [f], w, C.active, fun hWide => C.rooted ?_,
      .inl ⟨?_, rfl⟩, ?_⟩
    · cases F with
      | nil => exact .inl rfl
      | cons e F =>
        refine .inr (.inr fun g hg => ?_)
        cases hg
        have hSame : (b.pruned n).links e.node = b.links e.node := by
          have hne : e.node ≠ n := ThreadTree.node_ne_of_mem (g := ⟨n, [], k⟩) A.tree.nodup
            (List.mem_append_right _ (List.mem_cons_of_mem _ List.mem_cons_self))
          have hef : e.node ≠ f.node := ThreadTree.node_ne_of_mem A.tree.nodup
            (List.mem_append_right _ List.mem_cons_self)
          rw [links_pruned, Spine.pruned_of_ne hne]
          rw [A.tree.last (F := e :: F)]
          exact fun h => hef (Option.some.inj h).symm
        rw [hSame]
        exact hRooted hWide e rfl
    · rw [← List.append_assoc, C.frames]
    · intro m hm
      rw [Waits, C.pendings] at hm
      exact (hWaits m).mp hm
  · refine ⟨b', hCorrect, hRelinked.depth, G ++ [f], [⟨y, [], f.fuel⟩], y :: w, A'',
      fun _ => A''.rooted_singleton rfl, .inr ⟨y, hy, ?_, rfl, rfl⟩, ?_⟩
    · rw [List.append_nil]
    · intro m hm
      apply (hWaits m).mp
      obtain hm | hm := hm
      · obtain rfl | hm := List.mem_cons.mp hm
        · refine .inr (mem_pendings_levels.mpr ⟨f, List.mem_cons_self, ?_⟩)
          rw [hf]
          exact List.mem_cons_self
        · exact .inl hm
      · cases hm

/-- The submitted node meets its fate, whichever way the call goes on. -/
theorem Ready.resolve {W : NodeId → Prop} (R : Ready far wide t b S f [n] W)
    (hn : ∀ e ∈ S ++ [f], n ∉ e.remaining) (hRoute : route ≠ .locally → far = true)
    (hDepth : wide = true → ∀ m, W m → b.depth n ≤ b.depth m) :
    ∃ b', b.delegateOrDiscard n route = .ok b' ∧
      Ready far wide t b' S f [] fun _ => True := by
  obtain ⟨G, F, w, R⟩ := R
  have hnw : n ∈ w := by
    obtain ⟨-, rfl⟩ | ⟨y, -, -, -, rfl⟩ := R.stack
    · exact List.mem_cons_self
    · exact List.mem_cons_of_mem _ List.mem_cons_self
  have hRemaining : ∀ e ∈ G ++ F, n ∉ e.remaining := by
    obtain ⟨hStack, -⟩ | ⟨y, -, rfl, rfl, -⟩ := R.stack
    · rw [hStack]
      exact hn
    · intro e he
      obtain he | he := List.mem_append.mp he
      · exact hn e he
      · rw [List.mem_singleton.mp he]
        exact List.not_mem_nil
  have hPending : n ∉ pendings (levels b.links F) := by
    intro hPending
    obtain ⟨e, he, hPending⟩ := mem_pendings_levels.mp hPending
    exact hRemaining e (List.mem_append_right _ he) (mem_pending.mp hPending).1
  obtain ⟨b', fate, hDelegate, hResolves, hTree, -⟩ := R.active.ledger.delegateOrDiscard
    (.inl hnw) hRoute fun hWide m hm => hDepth hWide m (R.waits m hm)
  have hRooted : wide = true → b'.Rooted F := by
    rw [Rooted, hTree.links]
    exact R.rooted
  refine ⟨b', hDelegate, ?_⟩
  obtain ⟨hStack, rfl⟩ | ⟨y, hy, rfl, rfl, rfl⟩ := R.stack
  · refine ⟨G, F, [], ?_, hRooted, .inl ⟨hStack, rfl⟩, fun _ _ => trivial⟩
    refine R.active.resolve hnw hResolves hTree hPending ?_ fun e he hne => ?_
    · intro m
      constructor
      · rintro ⟨⟩
      · rintro ⟨hm, hmn⟩
        exact absurd (List.mem_singleton.mp hm) hmn
    · exact absurd hne (hRemaining e he)
  · have hyn : y ≠ n := by
      rintro rfl
      exact hn f (List.mem_append_right _ List.mem_cons_self) hy
    refine ⟨S ++ [f], [⟨y, [], f.fuel⟩], [y], ?_, hRooted, .inr ⟨y, hy, rfl, rfl, rfl⟩,
      fun _ _ => trivial⟩
    refine R.active.resolve hnw hResolves hTree hPending ?_ fun e he hne => ?_
    · intro m
      constructor
      · intro hm
        rw [List.mem_singleton.mp hm]
        exact ⟨List.mem_cons_self, hyn⟩
      · rintro ⟨hm, hmn⟩
        obtain hm | hm := List.mem_cons.mp hm
        · exact List.mem_singleton.mpr hm
        · exact absurd (List.mem_singleton.mp hm) hmn
    · exact absurd hne (hRemaining e he)

/-- The innermost node of the spine is `x`; the calls around it are `S`. -/
def Live (far wide : Bool) (t : ThreadId) (b : Balancer) (S : List Frame) (x : Frame)
    (w : List NodeId) : Prop :=
  ∃ G F, G ++ F = S ∧ Active far wide t b G (F ++ [x]) w ∧ (wide = true → b.Rooted (F ++ [x]))

theorem Active.pruneAndFix_root (A : Active far wide t b G [⟨n, [], k⟩] w) :
    b.pruneAndFixParentRootIfNeeded n = .ok b := by
  have hRoot : b.getRoot n = some n := A.getRoot (f := ⟨n, [], k⟩) (A.last (F := []))
  have hChildren : (b.node n).children = [] := A.children
  rw [pruneAndFixParentRootIfNeeded]
  exact if_pos ⟨hRoot, by rw [NodeCore.childrenCount, hChildren]; rfl⟩

theorem Active.pruneAndFix_child (A : Active far wide t b G (F ++ [f, ⟨n, [], k⟩]) w) :
    b.pruneAndFixParentRootIfNeeded n = (b.pruned n).tryCorrectRoot f.node := by
  have hParent : (b.node n).parent = some f.node := congrArg Links.parent A.tree.last
  have hne : b.getRoot n ≠ some n := by
    have hLast : (b.node n).root = some t :=
      A.tree.path.root (mem_ids_levels (f := ⟨n, [], k⟩)
        (List.mem_append_right _ (List.mem_cons_of_mem _ List.mem_cons_self)) List.mem_cons_self)
    cases F with
    | nil =>
      rw [A.getRoot hLast]
      exact fun h => ThreadTree.node_ne_of_mem (g := ⟨n, [], k⟩) A.tree.nodup List.mem_cons_self
        (Option.some.inj h)
    | cons e F =>
      rw [A.getRoot hLast]
      exact fun h => ThreadTree.node_ne_of_mem (g := ⟨n, [], k⟩) A.tree.nodup
        (List.mem_append_right _ (List.mem_cons_of_mem _ List.mem_cons_self)) (Option.some.inj h)
  rw [pruneAndFixParentRootIfNeeded]
  change (if b.getRoot n = some n ∧ _ then _ else _) = _
  rw [if_neg (fun h => hne h.1), prune_eq, hParent]
  rfl

/-- On a spine of at most two nodes, all that waits lies at the depth of the innermost. -/
theorem Active.depth_le (A : Active far wide t b G (F ++ [⟨n, [], k⟩]) [n]) (hF : F.length ≤ 1)
    {m : NodeId} (hm : b.Waits (F ++ [⟨n, [], k⟩]) [n] m) : b.depth n ≤ b.depth m := by
  obtain hm | hm := hm
  · exact Nat.le_of_eq (congrArg b.depth (List.mem_singleton.mp hm).symm)
  · cases F with
    | nil => cases hm
    | cons f F =>
      cases F with
      | nil =>
        have hLayered := A.layered.1
        have hm' : m ∈ f.pending b.links := by
          rw [levels, List.cons_append, List.map_cons, pendings_cons] at hm
          obtain hm | hm := List.mem_append.mp hm
          · exact hm
          · cases hm
        have hDepth := hLayered n List.mem_cons_self
        exact Nat.le_of_eq (hDepth.trans (hLayered m (List.mem_append_right _ hm')).symm)
      | cons g F => exact absurd hF (by simp)

theorem Active.sendLast (A : Active far wide t b G (F ++ [⟨n, [], k⟩]) [n])
    (hWide : wide = true → b.Rooted (F ++ [⟨n, [], k⟩]) ∧ F.length ≤ 1)
    (hStack : G ++ F = S ++ [f]) (hn : ∀ e ∈ S ++ [f], n ∉ e.remaining)
    (hRoute : route ≠ .locally → far = true) :
    ∃ b' b'', b.pruneAndFixParentRootIfNeeded n = .ok b' ∧
      b'.delegateOrDiscard n route = .ok b'' ∧ Ready far wide t b'' S f [] fun _ => True := by
  obtain rfl | ⟨F, e, rfl⟩ := List.eq_nil_or_concat F
  · have hPending : n ∉ pendings (levels b.links [⟨n, [], k⟩]) := (by rintro ⟨⟩)
    rw [List.append_nil] at hStack
    obtain ⟨b'', fate, hDelegate, hResolves, hTree, -⟩ := A.ledger.delegateOrDiscard
      (.inl List.mem_cons_self) hRoute fun h m hm => A.depth_le (hWide h).2 hm
    refine ⟨b, b'', A.pruneAndFix_root, hDelegate, G, [], [], ?_, fun _ => rooted_nil,
      .inl ⟨?_, rfl⟩, fun _ _ => trivial⟩
    · have hNone : ∀ m, m ∈ ([] : List NodeId) ↔ m ∈ [n] ∧ m ≠ n := by
        intro m
        constructor
        · rintro ⟨⟩
        · rintro ⟨hm, hmn⟩
          exact absurd (List.mem_singleton.mp hm) hmn
      have A' := A.resolve List.mem_cons_self hResolves hTree hPending hNone (by
        intro e he hne
        obtain he | he := List.mem_append.mp he
        · exact absurd hne (hn e (hStack ▸ he))
        · rw [List.mem_singleton.mp he] at hne
          cases hne)
      exact A'.forget rfl
    · rw [List.append_nil, hStack]
  · rw [List.concat_eq_append] at A hWide hStack
    rw [← List.append_assoc] at hStack
    obtain ⟨rfl, hef⟩ := List.append_inj' hStack rfl
    cases hef
    rw [List.append_assoc] at A hWide
    obtain ⟨b', hCorrect, hDepth, R⟩ := A.closeAndCorrect fun h => (hWide h).1
    obtain ⟨b'', hDelegate, R'⟩ := R.resolve hn hRoute (by
      intro h m hm
      rw [hDepth]
      have A' := A
      rw [show F ++ ([f] ++ [⟨n, [], k⟩]) = (F ++ [f]) ++ [⟨n, [], k⟩] by
        rw [List.append_assoc]] at A'
      apply A'.depth_le (hWide h).2
      rw [List.append_assoc]
      exact hm)
    exact ⟨b', b'', by rw [A.pruneAndFix_child]; exact hCorrect, hDelegate, R'⟩

/-- `send` gives up with the node still to be handed over, or the node has been handed over. -/
theorem Active.sendLoop {fuel : ℕ} (A : Active far wide t b G (F ++ [⟨n, [], k⟩]) [n])
    (hRooted : wide = true → b.Rooted (F ++ [⟨n, [], k⟩])) (hStack : G ++ F = S ++ [f])
    (hn : ∀ e ∈ S ++ [f], n ∉ e.remaining) (hRoute : route ≠ .locally → far = true)
    (hFuel : (pendings (levels b.links (F ++ [⟨n, [], k⟩]))).length < fuel) :
    ∃ sent b', Balancer.sendLoop n route fuel b = .ok (sent, b') ∧
      (sent = false → Live far wide t b' (S ++ [f]) ⟨n, [], k⟩ [n]) ∧
      (sent = true → Ready far wide t b' S f [] fun _ => True) := by
  induction fuel generalizing b G F with
  | zero => exact absurd hFuel (Nat.not_lt_zero _)
  | succ fuel ih =>
    have A₁ := A.ask
    rw [Balancer.sendLoop]
    change ∃ sent b', (if (!b.ask.1) = true then _ else _) = _ ∧ _
    cases hLock : b.ask.1 with
    | false =>
      exact ⟨false, b.ask.2, rfl, fun _ => ⟨G, F, hStack, A₁, hRooted⟩, (by rintro ⟨⟩)⟩
    | true =>
      change ∃ sent b', (if (!b.ask.2.ask.1) = true then _ else _) = _ ∧ _
      have A₂ := A₁.ask
      cases hOpened : b.ask.2.ask.1 with
      | false =>
        refine ⟨false, b.ask.2.ask.2.reject route, rfl, fun _ => ?_, (by rintro ⟨⟩)⟩
        refine ⟨G, F, hStack, A₂.reject route, ?_⟩
        cases route <;> exact hRooted
      | true =>
        change ∃ sent b', (b.ask.2.ask.2.tryPushRootLevelNode n route >>= _) = _ ∧ _
        rcases A₂.tryPushRootLevelNode hRooted hRoute with
          ⟨c, hPush, A₃, hWide⟩ | ⟨c, G', F', hPush, hFrames, A₃, hRooted', hLength⟩
        · rw [hPush]
          have hUnused : (c.node n).state = .unused :=
            (A₃.ledger.waiting n (.inl List.mem_cons_self)).untouched.state
          obtain ⟨b', b'', hFix, hDelegate, R⟩ :=
            A₃.sendLast hWide hStack hn hRoute
          refine ⟨true, b'', ?_, (by rintro ⟨⟩), fun _ => R⟩
          change (if (c.node n).isConsumed = true then _ else _) = _
          rw [isConsumed_eq_false hUnused]
          change (c.pruneAndFixParentRootIfNeeded n >>= fun b => _) = _
          rw [hFix]
          change (b'.delegateOrDiscard n route >>= fun b => _) = _
          rw [hDelegate]
          rfl
        · rw [hPush]
          have hFuel' : (pendings (levels c.links (F' ++ [⟨n, [], k⟩]))).length < fuel :=
            Nat.lt_of_lt_of_le hLength (Nat.le_of_lt_succ hFuel)
          exact ih A₃ (fun _ => hRooted') (hFrames.trans hStack) hFuel'

theorem Live.send (h : Live far wide t b (S ++ [f]) ⟨n, [], k⟩ [n])
    (hn : ∀ e ∈ S ++ [f], n ∉ e.remaining) (hRoute : route ≠ .locally → far = true) :
    ∃ sent b', b.send n route = .ok (sent, b') ∧
      (sent = false → Live far wide t b' (S ++ [f]) ⟨n, [], k⟩ [n]) ∧
      (sent = true → Ready far wide t b' S f [] fun _ => True) := by
  obtain ⟨G, F, hStack, A, hRooted⟩ := h
  exact A.sendLoop hRooted hStack hn hRoute (Nat.lt_succ_of_le A.pendings_length_le)

end Balancer

end Gempba
