import Gempba.LoadBalancing.Spine

/-!
# The tree of a thread and the calls that are active on it

Every active call of a thread holds the nodes of its children and hands them
over one after the other. The calls whose node the root of the thread has
left behind come first, then those whose nodes make up the spine.
-/

namespace Gempba

set_option autoImplicit false

open NodeCore Spine

/-- An active call: its node, the children not handed over yet, and the fuel for them. -/
structure Frame where
  node : NodeId
  remaining : List NodeId
  fuel : ℕ

namespace Frame

/-- The remaining children that are still linked. -/
def pending (h : LinkMap) (f : Frame) : List NodeId :=
  f.remaining.filter fun n => (h n).parent.isSome

def level (h : LinkMap) (f : Frame) : Level := (f.node, f.pending h)

def levels (h : LinkMap) (F : List Frame) : List Level := F.map (level h)

end Frame

open Gempba.Frame

/-- `G` are the calls left behind, `F` those on the spine, both from the outermost inwards. -/
structure ThreadTree (h : LinkMap) (roots : ThreadId → Option NodeId) (t : ThreadId)
    (G F : List Frame) : Prop where
  path : Path h t none (levels h F)
  nodup : (ids (levels h F)).Nodup
  slot : ∀ f ∈ F.head?, roots t = some f.node
  passed : ∀ f ∈ G, (h f.node).parent = none ∧ ∀ n ∈ f.remaining, (h n).parent = none

/-- The parents of the two maps differ at most at `s`, which has none in the second. -/
structure CutAt (h h' : LinkMap) (s : NodeId) : Prop where
  parent : ∀ n, n ≠ s → (h' n).parent = (h n).parent
  self : (h' s).parent = none

variable {h h' : LinkMap} {roots : ThreadId → Option NodeId} {t : ThreadId} {G F : List Frame}
  {f g s' : Frame} {s n p y : NodeId} {qs : List NodeId} {k : ℕ}

theorem CutAt.pruned (h : LinkMap) (n : NodeId) : CutAt h (pruned h n) n := by
  refine ⟨fun m hm => parent_pruned_of_ne hm, ?_⟩
  rw [pruned_self]

theorem CutAt.parent_eq_none (hh : CutAt h h' s) (hn : (h n).parent = none) :
    (h' n).parent = none := by
  obtain rfl | hns := eq_or_ne n s
  · exact hh.self
  · rw [hh.parent n hns, hn]

theorem CutAt.pending (hh : CutAt h h' s) (f : Frame) :
    f.pending h' = (f.pending h).filter (· != s) := by
  rw [Frame.pending, Frame.pending, List.filter_filter]
  apply List.filter_congr
  intro n _
  obtain rfl | hns := eq_or_ne n s
  · simp [hh.self]
  · simp [hh.parent n hns, hns]

theorem CutAt.pending_of_not_mem (hh : CutAt h h' s) (hs : s ∉ f.pending h) :
    f.pending h' = f.pending h := by
  rw [hh.pending]
  apply List.filter_eq_self.mpr
  intro n hn
  exact bne_iff_ne.mpr (ne_of_mem_of_not_mem hn hs)

theorem CutAt.levels (hh : CutAt h h' s) (hs : ∀ f ∈ F, s ∉ f.pending h) :
    levels h' F = levels h F := by
  apply List.map_congr_left
  intro f hf
  rw [level, level, hh.pending_of_not_mem (hs f hf)]

theorem CutAt.passed (hh : CutAt h h' s)
    (hG : ∀ f ∈ G, (h f.node).parent = none ∧ ∀ n ∈ f.remaining, (h n).parent = none) :
    ∀ f ∈ G, (h' f.node).parent = none ∧ ∀ n ∈ f.remaining, (h' n).parent = none := by
  intro f hf
  exact ⟨hh.parent_eq_none (hG f hf).1, fun n hn => hh.parent_eq_none ((hG f hf).2 n hn)⟩

theorem mem_pending : n ∈ f.pending h ↔ n ∈ f.remaining ∧ (h n).parent.isSome :=
  List.mem_filter

theorem mem_ids_levels (hf : f ∈ F) (hn : n ∈ f.node :: f.pending h) : n ∈ ids (levels h F) :=
  List.mem_flatMap.mpr ⟨level h f, List.mem_map_of_mem hf, hn⟩

theorem mem_pendings_levels : n ∈ pendings (levels h F) ↔ ∃ f ∈ F, n ∈ f.pending h := by
  constructor
  · intro hn
    obtain ⟨_, hl, hn⟩ := List.mem_flatMap.mp hn
    obtain ⟨f, hf, rfl⟩ := List.mem_map.mp hl
    exact ⟨f, hf, hn⟩
  · rintro ⟨f, hf, hn⟩
    exact List.mem_flatMap.mpr ⟨level h f, List.mem_map_of_mem hf, hn⟩

/-- In a spine without repetition no node is the pending child of another. -/
theorem node_not_mem_pendings {M : List Level} (hM : (ids M).Nodup) {l l' : Level} (hl : l ∈ M)
    (hl' : l' ∈ M) : l.1 ∉ l'.2 := by
  intro hn
  induction M with
  | nil => cases hl
  | cons a M ih =>
    rw [ids_cons, List.nodup_append] at hM
    obtain ⟨ha, hM, hDisjoint⟩ := hM
    rcases List.mem_cons.mp hl with hTop | hRest <;> rcases List.mem_cons.mp hl' with hTop' | hRest'
    · subst hTop
      subst hTop'
      exact (List.nodup_cons.mp ha).1 hn
    · subst hTop
      exact hDisjoint l.1 List.mem_cons_self l.1
        (pendings_subset (List.mem_flatMap.mpr ⟨l', hRest', hn⟩)) rfl
    · subst hTop'
      exact hDisjoint l.1 (List.mem_cons_of_mem _ hn) l.1
        (List.mem_flatMap.mpr ⟨l, hRest, List.mem_cons_self⟩) rfl
    · exact ih hM hRest hRest'

namespace ThreadTree

theorem node_not_pending (T : ThreadTree h roots t G F) (hf : f ∈ F) (hg : g ∈ F) :
    g.node ∉ f.pending h :=
  node_not_mem_pendings T.nodup (List.mem_map_of_mem hg) (List.mem_map_of_mem hf)

theorem head (T : ThreadTree h roots t G (f :: F)) :
    h f.node = ⟨some t, none, lead (levels h F) ++ f.pending h, t⟩ :=
  T.path.1

theorem not_pending_of_root (T : ThreadTree h roots t G F) (hn : (h n).root ≠ some t) :
    n ∉ ids (levels h F) :=
  fun hM => hn (T.path.root hM)

theorem tail_nodup (T : ThreadTree h roots t G (f :: F)) : (ids (levels h F)).Nodup := by
  have hNodup := T.nodup
  rw [levels, List.map_cons, ids_cons] at hNodup
  exact (List.nodup_append.mp hNodup).2.1

theorem node_ne_of_mem {M : List Frame} (hNodup : (ids (levels h (f :: M))).Nodup) (hg : g ∈ M) :
    f.node ≠ g.node := by
  intro hfg
  rw [levels, List.map_cons, ids_cons] at hNodup
  refine (List.nodup_append.mp hNodup).2.2 f.node List.mem_cons_self f.node ?_ rfl
  rw [hfg]
  exact mem_ids_levels hg List.mem_cons_self

/-- The innermost node of the spine hangs below the one before it. -/
theorem last (T : ThreadTree h roots t G (F ++ [f, g])) :
    h g.node = ⟨some t, some f.node, g.pending h, t⟩ := by
  have hPath := T.path
  rw [show levels h (F ++ [f, g]) = levels h F ++ [level h f, level h g] from List.map_append]
    at hPath
  exact hPath.last

theorem mem_pendings (T : ThreadTree h roots t G F) (hf : f ∈ G ++ F) (hn : n ∈ f.remaining)
    (hParent : (h n).parent.isSome) : f ∈ F ∧ n ∈ pendings (levels h F) := by
  obtain hf | hf := List.mem_append.mp hf
  · rw [(T.passed f hf).2 n hn] at hParent
    cases hParent
  · exact ⟨hf, mem_pendings_levels.mpr ⟨f, hf, mem_pending.mpr ⟨hn, hParent⟩⟩⟩

theorem keeps (T : ThreadTree h roots t G F) (hCut : CutAt h h' s) :
    ∀ f ∈ G ++ F, ∀ n ∈ f.remaining, (h n).parent.isSome →
      (h' n).parent.isSome ∨ n = s ∧ s ∈ pendings (levels h F) := by
  intro f hf n hn hParent
  obtain rfl | hns := eq_or_ne n s
  · exact .inr ⟨rfl, (T.mem_pendings hf hn hParent).2⟩
  · rw [hCut.parent n hns]
    exact .inl hParent

/-- Links outside the spine may change as long as no parent does. -/
theorem congr (T : ThreadTree h roots t G F) (hIds : ∀ n ∈ ids (levels h F), h' n = h n)
    (hParent : ∀ n, (h' n).parent = (h n).parent) : ThreadTree h' roots t G F := by
  have hLevels : levels h' F = levels h F := by
    apply List.map_congr_left
    intro f _
    simp only [level, Frame.pending, hParent]
  refine ⟨?_, ?_, T.slot, ?_⟩
  · rw [hLevels]
    exact T.path.congr hIds
  · rw [hLevels]
    exact T.nodup
  · intro f hf
    simp only [hParent]
    exact T.passed f hf

theorem skip (T : ThreadTree h roots t G F) (hParent : (h n).parent = none)
    (hn : n ∉ ids (levels h F)) : ThreadTree (pruned h n) roots t G F := by
  apply T.congr
  · intro m hm
    refine pruned_of_ne (ne_of_mem_of_not_mem hm hn) ?_
    rw [hParent]
    rintro ⟨⟩
  · intro m
    obtain rfl | hmn := eq_or_ne m n
    · rw [pruned_self, hParent]
    · exact parent_pruned_of_ne hmn

theorem pick (T : ThreadTree h roots t G (f :: F)) (hf : f.pending h = s :: qs) :
    ThreadTree (pruned h s) roots t G (f :: F) ∧ f.pending (pruned h s) = qs ∧
      levels (pruned h s) F = levels h F := by
  have hCut := CutAt.pruned h s
  have hNodup : (ids ((f.node, s :: qs) :: levels h F)).Nodup := by
    rw [← hf]
    exact T.nodup
  have hs : s ∉ qs ∧ ∀ g ∈ F, s ∉ g.pending h := by
    rw [ids_cons] at hNodup
    obtain ⟨hTop, -, hDisjoint⟩ := List.nodup_append.mp hNodup
    refine ⟨(List.nodup_cons.mp (List.nodup_cons.mp hTop).2).1, fun g hg hsg => ?_⟩
    exact hDisjoint s (List.mem_cons_of_mem _ List.mem_cons_self) s
      (mem_ids_levels hg (List.mem_cons_of_mem _ hsg)) rfl
  have hPending : f.pending (pruned h s) = qs := by
    rw [hCut.pending, hf, List.filter_cons_of_neg (by simp), List.filter_eq_self.mpr]
    intro n hn
    exact bne_iff_ne.mpr (ne_of_mem_of_not_mem hn hs.1)
  have hLevels : levels (pruned h s) F = levels h F := hCut.levels hs.2
  have hTop : levels (pruned h s) (f :: F) = (f.node, qs) :: levels h F := by
    rw [levels, List.map_cons, level, hPending]
    exact congrArg _ hLevels
  refine ⟨⟨?_, ?_, T.slot, hCut.passed T.passed⟩, hPending, hLevels⟩
  · rw [hTop]
    refine Path.pick ?_ hNodup
    rw [← hf]
    exact T.path
  · rw [hTop]
    refine hNodup.sublist ?_
    rw [ids_cons, ids_cons]
    exact (((List.sublist_cons_self s qs).cons_cons f.node)).append_right _

theorem lower (T : ThreadTree h roots t G (f :: g :: F)) (hf : f.pending h = []) :
    ThreadTree (pruned (cut h g.node) f.node) (Function.update roots t (some g.node)) t
      (G ++ [f]) (g :: F) ∧ CutAt h (pruned (cut h g.node) f.node) g.node := by
  have hne : f.node ≠ g.node := node_ne_of_mem T.nodup List.mem_cons_self
  have hCut : CutAt h (pruned (cut h g.node) f.node) g.node := by
    constructor
    · intro n hn
      obtain rfl | hnf := eq_or_ne n f.node
      · rw [pruned_self, T.head]
      · rw [parent_pruned_of_ne hnf, cut, Function.update_of_ne hn]
    · rw [parent_pruned_of_ne hne.symm, cut, Function.update_self]
  have hLevels : levels (pruned (cut h g.node) f.node) (f :: g :: F) = levels h (f :: g :: F) :=
    hCut.levels fun e he => T.node_not_pending he (List.mem_cons_of_mem _ List.mem_cons_self)
  have hTail := (List.cons.inj hLevels).2
  refine ⟨⟨?_, ?_, ?_, ?_⟩, hCut⟩
  · rw [show levels _ (g :: F) = levels h (g :: F) from hTail]
    apply Path.lower
    · rw [← hf]
      exact T.path
    · rw [← hf]
      exact T.nodup
  · rw [show levels _ (g :: F) = levels h (g :: F) from hTail]
    exact T.tail_nodup
  · intro e he
    rw [Function.update_self, Option.some.inj he]
  · intro e he
    obtain he | he := List.mem_append.mp he
    · exact hCut.passed T.passed e he
    · rw [List.mem_singleton.mp he]
      refine ⟨hCut.parent_eq_none (by rw [T.head]), fun n hn => ?_⟩
      have hPending : n ∉ f.pending h := by
        rw [hf]
        exact List.not_mem_nil
      apply hCut.parent_eq_none
      cases hParent : (h n).parent with
      | none => rfl
      | some p => exact absurd (mem_pending.mpr ⟨hn, by rw [hParent]; rfl⟩) hPending

/-- The only pending child of the only call on the spine becomes the root. -/
theorem lowerToPending (T : ThreadTree h roots t G [f]) (hf : f.pending h = [y]) (k : ℕ) :
    ThreadTree (pruned (cut h y) f.node) (Function.update roots t (some y)) t
      (G ++ [f]) [⟨y, [], k⟩] ∧ CutAt h (pruned (cut h y) f.node) y := by
  have hM : Path h t none ([] ++ [(f.node, y :: [])]) := by
    rw [← hf]
    exact T.path
  have hNodup : (ids [(f.node, []), (y, [])]).Nodup := by
    have hNodup := T.nodup
    rw [levels, List.map_singleton, level, hf] at hNodup
    exact hNodup
  have hne : f.node ≠ y := by
    intro hfy
    exact (List.nodup_cons.mp hNodup).1 (hfy ▸ List.mem_cons_self)
  have hCut : CutAt h (pruned (cut h y) f.node) y := by
    constructor
    · intro n hn
      obtain rfl | hnf := eq_or_ne n f.node
      · rw [pruned_self, T.head]
      · rw [parent_pruned_of_ne hnf, cut, Function.update_of_ne hn]
    · rw [parent_pruned_of_ne hne.symm, cut, Function.update_self]
  refine ⟨⟨hM.shift.lower hNodup, List.nodup_singleton y, ?_, ?_⟩, hCut⟩
  · intro e he
    rw [Function.update_self, ← Option.some.inj he]
  · intro e he
    obtain he | he := List.mem_append.mp he
    · exact hCut.passed T.passed e he
    · rw [List.mem_singleton.mp he]
      refine ⟨hCut.parent_eq_none (by rw [T.head]), fun n hn => ?_⟩
      obtain rfl | hny := eq_or_ne n y
      · exact hCut.self
      · apply hCut.parent_eq_none
        cases hParent : (h n).parent with
        | none => rfl
        | some p =>
          have hPending : n ∈ f.pending h := mem_pending.mpr ⟨hn, by rw [hParent]; rfl⟩
          rw [hf] at hPending
          exact absurd (List.mem_singleton.mp hPending) hny

theorem levels_append (h : LinkMap) (F F' : List Frame) :
    levels h (F ++ F') = levels h F ++ levels h F' :=
  List.map_append

/-- The next child of the innermost call, still linked, becomes a node of the spine. -/
theorem descend (T : ThreadTree h roots t G (F ++ [⟨p, n :: qs, k⟩])) (hn : (h n).parent.isSome)
    (k' : ℕ) : ThreadTree h roots t G (F ++ [⟨p, qs, k⟩, ⟨n, [], k'⟩]) := by
  have hBefore : levels h (F ++ [⟨p, n :: qs, k⟩]) =
      levels h F ++ [(p, n :: (⟨p, qs, k⟩ : Frame).pending h)] := by
    have hPending : (⟨p, n :: qs, k⟩ : Frame).pending h = n :: (⟨p, qs, k⟩ : Frame).pending h :=
      List.filter_cons_of_pos hn
    rw [levels_append]
    exact congrArg (fun ps => levels h F ++ [(p, ps)]) hPending
  have hAfter : levels h (F ++ [⟨p, qs, k⟩, ⟨n, [], k'⟩]) =
      levels h F ++ [(p, (⟨p, qs, k⟩ : Frame).pending h), (n, [])] :=
    levels_append ..
  refine ⟨?_, ?_, ?_, T.passed⟩
  · rw [hAfter]
    apply Path.shift
    rw [← hBefore]
    exact T.path
  · have hNodup := T.nodup
    rw [hBefore] at hNodup
    rw [hAfter]
    refine (List.Perm.nodup_iff ?_).mp hNodup
    simp only [ids_append, ids_cons, ids_nil, List.append_nil, List.cons_append]
    exact .append_left _ (.cons p (List.perm_append_singleton n _).symm)
  · intro f hf
    cases F with
    | nil =>
      cases Option.some.inj (Option.mem_def.mp hf)
      exact T.slot ⟨p, n :: qs, k⟩ rfl
    | cons e F => exact T.slot f hf

theorem close (T : ThreadTree h roots t G (F ++ [f, g])) (hg : g.pending h = []) :
    ThreadTree (pruned h g.node) roots t G (F ++ [f]) ∧
      levels (pruned h g.node) (F ++ [f]) = levels h (F ++ [f]) := by
  have hBefore : levels h (F ++ [f, g]) = levels h F ++ [(f.node, f.pending h), (g.node, [])] := by
    rw [levels_append, ← hg]
    rfl
  have hAfter : levels h (F ++ [f]) = levels h F ++ [(f.node, f.pending h)] := levels_append ..
  have hCut := CutAt.pruned h g.node
  have hLevels : levels (pruned h g.node) (F ++ [f]) = levels h (F ++ [f]) := by
    apply hCut.levels
    intro e he
    apply T.node_not_pending
    · obtain he | he := List.mem_append.mp he
      · exact List.mem_append_left _ he
      · rw [List.mem_singleton.mp he]
        exact List.mem_append_right _ List.mem_cons_self
    · exact List.mem_append_right _ (List.mem_cons_of_mem _ List.mem_cons_self)
  have hNodup := T.nodup
  have hPath := T.path
  rw [hBefore] at hNodup hPath
  refine ⟨⟨?_, ?_, ?_, hCut.passed T.passed⟩, hLevels⟩
  · rw [hLevels, hAfter]
    exact hPath.close hNodup
  · rw [hLevels, hAfter]
    refine hNodup.sublist ?_
    rw [ids_append, ids_append]
    refine List.Sublist.append_left ?_ _
    simp only [ids_cons, ids_nil, List.append_nil]
    exact List.sublist_append_left _ _
  · intro e he
    cases F with
    | nil => exact T.slot e he
    | cons e' F => exact T.slot e he

/-- The root itself is pruned, or a node that the root has left behind. -/
theorem closeTop (T : ThreadTree h roots t G F) (hn : (h n).parent = none) :
    ThreadTree (pruned h n) roots t G [] :=
  have hEmpty : ThreadTree h roots t G [] := ⟨trivial, List.nodup_nil, (by rintro _ ⟨⟩), T.passed⟩
  hEmpty.skip hn List.not_mem_nil

theorem ofPassed (T : ThreadTree h roots t (G ++ [g]) F) : ThreadTree h roots t G F :=
  ⟨T.path, T.nodup, T.slot, fun f hf => T.passed f (List.mem_append_left _ hf)⟩

theorem handOver (T : ThreadTree h roots t G (F ++ [⟨p, n :: qs, k⟩]))
    (hn : (h n).parent = none) : ThreadTree h roots t G (F ++ [⟨p, qs, k⟩]) := by
  have hPending : (⟨p, n :: qs, k⟩ : Frame).pending h = (⟨p, qs, k⟩ : Frame).pending h :=
    List.filter_cons_of_neg (by simp [hn])
  have hLevels : levels h (F ++ [⟨p, qs, k⟩]) = levels h (F ++ [⟨p, n :: qs, k⟩]) := by
    rw [levels_append, levels_append]
    exact congrArg (fun ps => levels h F ++ [(p, ps)]) hPending.symm
  refine ⟨?_, ?_, ?_, T.passed⟩
  · rw [hLevels]
    exact T.path
  · rw [hLevels]
    exact T.nodup
  · intro f hf
    cases F with
    | nil =>
      cases Option.some.inj (Option.mem_def.mp hf)
      exact T.slot ⟨p, n :: qs, k⟩ rfl
    | cons e F => exact T.slot f hf

theorem handOver_passed (T : ThreadTree h roots t (G ++ [⟨p, n :: qs, k⟩]) F) :
    ThreadTree h roots t (G ++ [⟨p, qs, k⟩]) F := by
  refine ⟨T.path, T.nodup, T.slot, ?_⟩
  intro f hf
  obtain hf | hf := List.mem_append.mp hf
  · exact T.passed f (List.mem_append_left _ hf)
  · have hLast := T.passed ⟨p, n :: qs, k⟩ (List.mem_append_right _ List.mem_cons_self)
    rw [List.mem_singleton.mp hf]
    exact ⟨hLast.1, fun m hm => hLast.2 m (List.mem_cons_of_mem _ hm)⟩

theorem create (T : ThreadTree h roots t G (F ++ [⟨p, qs, k⟩]))
    (hNew : ∀ f ∈ G ++ (F ++ [⟨p, qs, k⟩]), n ∉ f.node :: f.remaining)
    (hNode : h' n = ⟨some t, some p, [], t⟩)
    (hParent : h' p = { h p with children := (h p).children ++ [n] })
    (hOther : ∀ m, m ≠ n → m ≠ p → h' m = h m) (k' : ℕ) :
    ThreadTree h' roots t G (F ++ [⟨p, qs ++ [n], k'⟩]) ∧
      levels h' F = levels h F ∧
      (⟨p, qs ++ [n], k'⟩ : Frame).pending h' = (⟨p, qs, k⟩ : Frame).pending h ++ [n] := by
  have hSame : ∀ m, m ≠ n → (h' m).parent = (h m).parent := by
    intro m hm
    obtain rfl | hmp := eq_or_ne m p
    · rw [hParent]
    · rw [hOther m hm hmp]
  have hKeep : ∀ f ∈ F ++ [⟨p, qs, k⟩], f.pending h' = f.pending h := by
    intro f hf
    apply List.filter_congr
    intro m hm
    have hmn : m ≠ n := by
      rintro rfl
      exact hNew f (List.mem_append_right _ hf) (List.mem_cons_of_mem _ hm)
    rw [hSame m hmn]
  have hLevels : levels h' F = levels h F := by
    apply List.map_congr_left
    intro f hf
    rw [level, level, hKeep f (List.mem_append_left _ hf)]
  have hLast : (⟨p, qs ++ [n], k'⟩ : Frame).pending h' =
      (⟨p, qs, k⟩ : Frame).pending h ++ [n] := by
    have hQs := hKeep ⟨p, qs, k⟩ (List.mem_append_right _ List.mem_cons_self)
    rw [← hQs, Frame.pending, List.filter_append, List.filter_cons_of_pos (by rw [hNode]; rfl)]
    rfl
  have hBefore : levels h (F ++ [⟨p, qs, k⟩]) =
      levels h F ++ [(p, (⟨p, qs, k⟩ : Frame).pending h)] := levels_append ..
  have hAfter : levels h' (F ++ [⟨p, qs ++ [n], k'⟩]) =
      levels h F ++ [(p, (⟨p, qs, k⟩ : Frame).pending h ++ [n])] := by
    rw [levels_append, hLevels, ← hLast]
    rfl
  have hIds : n ∉ ids (levels h (F ++ [⟨p, qs, k⟩])) := by
    intro hn
    obtain ⟨_, hl, hn⟩ := List.mem_flatMap.mp hn
    obtain ⟨f, hf, rfl⟩ := List.mem_map.mp hl
    apply hNew f (List.mem_append_right _ hf)
    obtain hn | hn := List.mem_cons.mp hn
    · exact hn ▸ List.mem_cons_self
    · exact List.mem_cons_of_mem _ (mem_pending.mp hn).1
  have hNodup := T.nodup
  have hPath := T.path
  rw [hBefore] at hNodup hPath hIds
  refine ⟨⟨?_, ?_, ?_, ?_⟩, hLevels, hLast⟩
  · rw [hAfter]
    exact hPath.create hIds hNodup hNode hParent hOther
  · rw [hAfter]
    refine (List.Perm.nodup_iff ?_).mpr (List.nodup_cons.mpr ⟨hIds, hNodup⟩)
    simp only [ids_append, ids_cons, ids_nil, List.append_nil]
    rw [← List.cons_append, ← List.append_assoc]
    exact List.perm_append_singleton n _
  · intro f hf
    cases F with
    | nil =>
      cases Option.some.inj (Option.mem_def.mp hf)
      exact T.slot ⟨p, qs, k⟩ rfl
    | cons e F => exact T.slot f hf
  · intro f hf
    have hNode' : ∀ m ∈ f.node :: f.remaining, m ≠ n := by
      rintro m hm rfl
      exact hNew f (List.mem_append_left _ hf) hm
    refine ⟨?_, ?_⟩
    · rw [hSame _ (hNode' _ List.mem_cons_self), (T.passed f hf).1]
    · intro m hm
      rw [hSame m (hNode' m (List.mem_cons_of_mem _ hm)), (T.passed f hf).2 m hm]

end ThreadTree

end Gempba
