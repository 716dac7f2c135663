import Mathlib.Data.List.Nodup
import Gempba.LoadBalancing.Balancer

/-!
# The spine of a thread

The tree of a thread is a spine of nodes, each the leftmost child of the one
above, with the pending children of each to the right of it. A spine is
stated over the links of the nodes alone; what pruning, re-rooting and
creating do to the links is stated beside it.
-/

namespace Gempba

set_option autoImplicit false

open NodeCore

/-- A node of the spine with its pending children. -/
abbrev Level := NodeId × List NodeId

abbrev LinkMap := NodeId → Links

namespace Spine

def ids (M : List Level) : List NodeId := M.flatMap fun l => l.1 :: l.2

def pendings (M : List Level) : List NodeId := M.flatMap Prod.snd

def lead : List Level → List NodeId
  | [] => []
  | l :: _ => [l.1]

/-- The links of a spine that hangs below `parent` on thread `t`. -/
def Path (h : LinkMap) (t : ThreadId) : Option NodeId → List Level → Prop
  | _, [] => True
  | parent, (z, ps) :: M =>
    h z = ⟨some t, parent, lead M ++ ps, t⟩ ∧ (∀ p ∈ ps, h p = ⟨some t, some z, [], t⟩) ∧
      Path h t (some z) M

/-- The links after a node was pruned. -/
def pruned (h : LinkMap) (n : NodeId) : LinkMap := fun m =>
  if m = n then ⟨none, none, [], (h n).threadId⟩
  else if (h n).parent = some m then { h m with children := (h m).children.filter (· != n) }
  else h m

/-- The links after a node was cut off its parent. -/
def cut (h : LinkMap) (n : NodeId) : LinkMap := Function.update h n { h n with parent := none }

variable {h h' : LinkMap} {t : ThreadId} {parent : Option NodeId} {L M M' : List Level}
  {n m p s y z : NodeId} {ps qs : List NodeId}

@[simp] theorem ids_cons (l : Level) (M : List Level) : ids (l :: M) = l.1 :: l.2 ++ ids M := rfl

@[simp] theorem ids_nil : ids [] = [] := rfl

theorem ids_append (L M : List Level) : ids (L ++ M) = ids L ++ ids M := List.flatMap_append

@[simp] theorem pendings_cons (l : Level) (M : List Level) :
    pendings (l :: M) = l.2 ++ pendings M := rfl

@[simp] theorem pendings_nil : pendings [] = [] := rfl

theorem pendings_append (L M : List Level) : pendings (L ++ M) = pendings L ++ pendings M :=
  List.flatMap_append

theorem pendings_subset : pendings M ⊆ ids M := by
  intro n hn
  obtain ⟨l, hl, hn⟩ := List.mem_flatMap.mp hn
  exact List.mem_flatMap.mpr ⟨l, hl, List.mem_cons_of_mem _ hn⟩

theorem lead_subset : lead M ⊆ ids M := by
  cases M with
  | nil => exact List.nil_subset _
  | cons l M =>
    intro n hn
    rw [List.mem_singleton.mp hn]
    exact List.mem_cons_self

@[simp] theorem pruned_self : pruned h n n = ⟨none, none, [], (h n).threadId⟩ := if_pos rfl

theorem pruned_parent (hp : (h n).parent = some p) (hne : p ≠ n) :
    pruned h n p = { h p with children := (h p).children.filter (· != n) } :=
  (if_neg hne).trans (if_pos hp)

theorem pruned_of_ne (hne : m ≠ n) (hp : (h n).parent ≠ some m) : pruned h n m = h m :=
  (if_neg hne).trans (if_neg hp)

theorem parent_pruned_of_ne (hne : m ≠ n) : (pruned h n m).parent = (h m).parent := by
  rw [pruned, if_neg hne]
  split <;> rfl

theorem Path.congr (hM : Path h t parent M) (hh : ∀ n ∈ ids M, h' n = h n) :
    Path h' t parent M := by
  induction M generalizing parent with
  | nil => trivial
  | cons l M ih =>
    obtain ⟨hz, hps, hM⟩ := hM
    refine ⟨?_, ?_, ?_⟩
    · rw [hh l.1 List.mem_cons_self, hz]
    · intro p hp
      rw [hh p (List.mem_append_left _ (List.mem_cons_of_mem _ hp)), hps p hp]
    · exact ih hM fun n hn => hh n (List.mem_append_right _ hn)

/-- The lower part of a spine may be replaced by one with the same top. -/
theorem Path.replace (hM : Path h t parent (L ++ M)) (hL : ∀ n ∈ ids L, h' n = h n)
    (hLead : lead M' = lead M) (hM' : ∀ parent, Path h t parent M → Path h' t parent M') :
    Path h' t parent (L ++ M') := by
  induction L generalizing parent with
  | nil => exact hM' _ hM
  | cons l L ih =>
    obtain ⟨hz, hps, hM⟩ := hM
    have hLead' : lead (L ++ M') = lead (L ++ M) := by
      cases L with
      | nil => exact hLead
      | cons l L => rfl
    refine ⟨?_, ?_, ?_⟩
    · rw [hL l.1 List.mem_cons_self, hz]
      exact congrArg (fun ns => Links.mk (some t) parent (ns ++ l.2) t) hLead'.symm
    · intro p hp
      rw [hL p (List.mem_append_left _ (List.mem_cons_of_mem _ hp)), hps p hp]
    · exact ih hM fun n hn => hL n (List.mem_append_right _ hn)

/-- The pending child of a spine's node is seen as the next node of the spine. -/
theorem Path.shift (hM : Path h t parent (L ++ [(z, y :: ps)])) :
    Path h t parent (L ++ [(z, ps), (y, [])]) := by
  refine hM.replace (fun _ _ => rfl) rfl ?_
  rintro parent ⟨hz, hps, -⟩
  refine ⟨hz, fun p hp => hps p (List.mem_cons_of_mem _ hp), ?_, (by rintro _ ⟨⟩), trivial⟩
  exact hps y List.mem_cons_self

theorem Path.pick (hM : Path h t parent ((z, s :: qs) :: M))
    (hNodup : (ids ((z, s :: qs) :: M)).Nodup) :
    Path (pruned h s) t parent ((z, qs) :: M) := by
  obtain ⟨hz, hps, hM⟩ := hM
  have hs : (h s).parent = some z := by rw [hps s List.mem_cons_self]
  simp only [ids_cons, List.cons_append, List.nodup_cons, List.mem_cons, List.mem_append, not_or]
    at hNodup
  obtain ⟨⟨hzs, hzqs, hzM⟩, ⟨hsqs, hsM⟩, hNodup⟩ := hNodup
  refine ⟨?_, ?_, ?_⟩
  · have hChildren : (lead M ++ s :: qs).filter (· != s) = lead M ++ qs := by
      rw [List.filter_append, List.filter_cons_of_neg (by simp)]
      rw [List.filter_eq_self.mpr, List.filter_eq_self.mpr]
      · intro q hq
        exact bne_iff_ne.mpr (ne_of_mem_of_not_mem hq hsqs)
      · intro q hq
        exact bne_iff_ne.mpr (ne_of_mem_of_not_mem (lead_subset hq) hsM)
    rw [pruned_parent hs hzs, hz, hChildren]
  · intro q hq
    rw [pruned_of_ne (ne_of_mem_of_not_mem hq hsqs), hps q (List.mem_cons_of_mem _ hq)]
    rw [hs]
    intro hzq
    exact hzqs (Option.some.inj hzq ▸ hq)
  · refine hM.congr fun n hn => pruned_of_ne (ne_of_mem_of_not_mem hn hsM) ?_
    rw [hs]
    intro hzn
    exact hzM (Option.some.inj hzn ▸ hn)

theorem Path.close (hM : Path h t parent (L ++ [(z, ps), (y, [])]))
    (hNodup : (ids (L ++ [(z, ps), (y, [])])).Nodup) :
    Path (pruned h y) t parent (L ++ [(z, ps)]) := by
  simp only [ids_append, ids_cons, ids_nil, List.append_nil, List.nodup_append, List.mem_append,
    List.mem_cons, List.cons_append, List.nodup_cons] at hNodup
  obtain ⟨-, ⟨hz, -, -, hy⟩, hL⟩ := hNodup
  have hzy : z ≠ y := by
    intro hzy
    exact hz (.inr (.inl hzy))
  have hParent : (h y).parent = some z := by
    clear hL hz hy
    induction L generalizing parent with
    | nil =>
      obtain ⟨-, -, hy, -⟩ := hM
      rw [hy]
    | cons l L ih => exact ih hM.2.2
  refine hM.replace ?_ rfl ?_
  · intro n hn
    apply pruned_of_ne (hL n hn y (.inr (.inr (.inl rfl))))
    rw [hParent]
    intro hzn
    exact hL n hn z (.inl rfl) (Option.some.inj hzn).symm
  · rintro parent ⟨hz', hps, -, -, -⟩
    have hChildren : (y :: ps).filter (· != y) = ps := by
      rw [List.filter_cons_of_neg (by simp), List.filter_eq_self.mpr]
      intro q hq
      exact bne_iff_ne.mpr (hy q hq y (.inl rfl))
    refine ⟨?_, ?_, trivial⟩
    · rw [pruned_parent hParent hzy, hz']
      exact congrArg (fun ns => Links.mk (some t) parent ns t) hChildren
    · intro q hq
      rw [pruned_of_ne (hy q hq y (.inl rfl)), hps q hq]
      rw [hParent]
      intro hzq
      exact hz (.inl (Option.some.inj hzq ▸ hq))

theorem Path.lower (hM : Path h t none ((z, []) :: (y, ps) :: M))
    (hNodup : (ids ((z, []) :: (y, ps) :: M)).Nodup) :
    Path (pruned (cut h y) z) t none ((y, ps) :: M) := by
  obtain ⟨hz, -, hy, hps, hM⟩ := hM
  simp only [ids_cons, List.cons_append, List.nil_append, List.nodup_cons, List.mem_cons, not_or]
    at hNodup
  obtain ⟨⟨hzy, hzM⟩, hyM, -⟩ := hNodup
  have hcz : cut h y z = h z := Function.update_of_ne hzy ..
  have hParent : ∀ n, (cut h y z).parent ≠ some n := by
    intro n
    rw [hcz, hz]
    rintro ⟨⟩
  have hSame : ∀ n ∈ ps ++ ids M, pruned (cut h y) z n = h n := by
    intro n hn
    rw [pruned_of_ne (ne_of_mem_of_not_mem hn hzM) (hParent n), cut,
      Function.update_of_ne (ne_of_mem_of_not_mem hn hyM)]
  refine ⟨?_, ?_, ?_⟩
  · rw [pruned_of_ne (Ne.symm hzy) (hParent y), cut, Function.update_self, hy]
  · intro q hq
    rw [hSame q (List.mem_append_left _ hq), hps q hq]
  · exact hM.congr fun n hn => hSame n (List.mem_append_right _ hn)

theorem Path.create (hM : Path h t parent (L ++ [(z, ps)])) (hn : n ∉ ids (L ++ [(z, ps)]))
    (hNodup : (ids (L ++ [(z, ps)])).Nodup) (hNode : h' n = ⟨some t, some z, [], t⟩)
    (hParent : h' z = { h z with children := (h z).children ++ [n] })
    (hOther : ∀ m, m ≠ n → m ≠ z → h' m = h m) :
    Path h' t parent (L ++ [(z, ps ++ [n])]) := by
  simp only [ids_append, ids_cons, ids_nil, List.append_nil, List.nodup_append, List.mem_append,
    List.mem_cons, List.nodup_cons, not_or] at hn hNodup
  obtain ⟨-, ⟨hz, -⟩, hL⟩ := hNodup
  refine hM.replace ?_ rfl ?_
  · intro m hm
    exact hOther m (ne_of_mem_of_not_mem hm hn.1) (hL m hm z (.inl rfl))
  · rintro parent ⟨hz', hps, -⟩
    refine ⟨?_, ?_, trivial⟩
    · rw [hParent, hz']
      rfl
    · intro q hq
      obtain hq | hq := List.mem_append.mp hq
      · rw [hOther q (ne_of_mem_of_not_mem hq hn.2.2) (ne_of_mem_of_not_mem hq hz), hps q hq]
      · rw [List.mem_singleton.mp hq, hNode]

/-- Below its top, every node of a spine has a parent and the root slot of the thread. -/
theorem Path.root (hM : Path h t parent M) (hn : n ∈ ids M) : (h n).root = some t := by
  induction M generalizing parent with
  | nil => cases hn
  | cons l M ih =>
    obtain ⟨hz, hps, hM⟩ := hM
    obtain hn | hn := List.mem_append.mp hn
    · obtain rfl | hn := List.mem_cons.mp hn
      · rw [hz]
      · rw [hps n hn]
    · exact ih hM hn

theorem Path.last (hM : Path h t parent (L ++ [(z, ps), (y, qs)])) :
    h y = ⟨some t, some z, qs, t⟩ := by
  induction L generalizing parent with
  | nil => exact hM.2.2.1
  | cons l L ih => exact ih hM.2.2

end Spine

end Gempba
