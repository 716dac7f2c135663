import Gempba.Utils.TreeCalls

/-!
# When the process tree is a forest

`add_next` tests that the node to be attached is an orphan, not that it is
another node than the caller or one that the caller is not below.
-/

namespace Gempba

set_option autoImplicit false

variable {n : ℕ}

namespace Tree

def parents (t : Tree n) : Fin n → Option (Fin n) := fun c => (t c).parent

theorem Represents.parents_eq {t : Tree n} {F : Forest.Ordered (Fin n)} (h : t.Represents F) :
    t.parents = F.parent := funext h.parent

end Tree

namespace TreeOperation

variable {op : TreeOperation n} {t : Tree n} {F : Forest.Ordered (Fin n)}

/-- An `add_next` that is accepted is given neither the calling node nor one above it. -/
def KeepsForest (op : TreeOperation n) (t : Tree n) : Prop :=
  ∀ (p c : Fin n) (t' : Tree n), op = .addNext p c → op.call t = .ok () t' →
    ¬ Relation.ReflTransGen (Forest.Child t.parents) p c

theorem keepsForest_addNext {t : Tree n} {p c : Fin n}
    (h : ¬ Relation.ReflTransGen (Forest.Child t.parents) p c) :
    (TreeOperation.addNext p c).KeepsForest t := by
  intro q d _ hop _
  obtain ⟨rfl, hindex⟩ := TreeOperation.addNext.inj hop
  obtain rfl : c = d := Fin.ext (by exact_mod_cast hindex)
  exact h

theorem apply_ok {t' : Tree n} (h : op.call t = .ok () t') : op.apply t = t' := by
  rw [apply, h]

theorem apply_error {e : TreeError} {t' : Tree n} (h : op.call t = .error e t') :
    op.apply t = t' := by
  rw [apply, h]

theorem acyclic_apply_iff (ht : t.Represents F) (hop : op.Defined)
    (h : Forest.Acyclic t.parents) :
    Forest.Acyclic (op.apply t).parents ↔ op.KeepsForest t := by
  cases effect ht hop with
  | throws e hcall =>
    rw [apply_error hcall]
    refine ⟨fun _ p c t' _ hok => ?_, fun _ => h⟩
    rw [hcall] at hok
    cases hok
  | attaches p c t' hop hc hcall ht' =>
    rw [ht.parents_eq] at h
    rw [apply_ok hcall, ht'.parents_eq]
    refine (Forest.acyclic_attach_iff h hc).trans ⟨fun hfree q d t'' hop' hcall' => ?_,
      fun hkeeps => ?_⟩
    · rw [← ht.parents_eq] at hfree
      rw [hop] at hop' hcall'
      exact keepsForest_addNext hfree q d t'' hop' hcall'
    · rw [← ht.parents_eq]
      exact hkeeps p c t' hop hcall
  | detaches t' F' hop hcall ht' hshrinks =>
    rw [ht.parents_eq] at h
    rw [apply_ok hcall, ht'.parents_eq]
    refine ⟨fun _ p c _ hadd _ => absurd hadd (hop p c), fun _ => h.mono fun c p hcp => ?_⟩
    exact (F.mem_children p c).mp ((hshrinks p).subset ((F'.mem_children p c).mpr hcp))

end TreeOperation

namespace TreeHistory

theorem run_concat (ops : List (TreeOperation n)) (op : TreeOperation n) :
    (run (ops ++ [op])).tree = op.apply (run ops).tree := by
  rw [run, List.foldl_append, List.foldl_cons, List.foldl_nil]
  change (step (run ops) op).tree = _
  rw [step, TreeOperation.apply]
  cases op.call (run ops).tree with
  | ok _ t => rfl
  | error _ t => rfl

/-- Every state of a run is acyclic when no call of it closes a cycle, and only then. -/
theorem acyclic_iff (ops : List (TreeOperation n)) (hops : ∀ op ∈ ops, op.Defined) :
    (∀ pre, pre <+: ops → Forest.Acyclic (run pre).tree.parents) ↔
      ∀ pre op, pre ++ [op] <+: ops → op.KeepsForest (run pre).tree := by
  constructor
  · intro h pre op hpre
    have hdefined : ∀ x ∈ pre ++ [op], x.Defined := fun x hx => hops x (hpre.subset hx)
    obtain ⟨F, hF⟩ := Follows.run fun x hx => hdefined x (List.mem_append_left _ hx)
    have hop := hdefined op (List.mem_append_right _ (List.mem_singleton_self op))
    have hbefore := h pre ((List.prefix_append pre [op]).trans hpre)
    have hafter := h (pre ++ [op]) hpre
    rw [run_concat] at hafter
    exact (TreeOperation.acyclic_apply_iff hF.represents hop hbefore).mp hafter
  · intro h pre
    induction pre using List.reverseRecOn with
    | nil =>
      intro _ x hx
      obtain ⟨y, hxy, -⟩ := Relation.TransGen.head'_iff.mp hx
      cases hxy
    | append_singleton pre op ih =>
      intro hpre
      have hdefined : ∀ x ∈ pre ++ [op], x.Defined := fun x hx => hops x (hpre.subset hx)
      obtain ⟨F, hF⟩ := Follows.run fun x hx => hdefined x (List.mem_append_left _ hx)
      have hop := hdefined op (List.mem_append_right _ (List.mem_singleton_self op))
      have hbefore := ih ((List.prefix_append pre [op]).trans hpre)
      rw [run_concat]
      exact (TreeOperation.acyclic_apply_iff hF.represents hop hbefore).mpr (h pre op hpre)

end TreeHistory

/-- An index past the end is rejected, and the tree stays a forest as long as no node is hung
below itself or below one of its descendants. -/
theorem tree_forest_iff (ops : List (TreeOperation n)) (hops : ∀ op ∈ ops, op.Defined) :
    (∀ (p : Fin n) (index : ℤ) (t : Tree n), n ≤ index →
      (TreeOperation.addNext p index).call t = .error .outOfBounds t) ∧
    ((∀ pre, pre <+: ops → Forest.Acyclic (TreeHistory.run pre).tree.parents) ↔
      ∀ pre op, pre ++ [op] <+: ops → op.KeepsForest (TreeHistory.run pre).tree) :=
  ⟨fun _ _ t hindex => TreeM.addNextWithin_outOfBounds hindex t, TreeHistory.acyclic_iff ops hops⟩

/-- Node 0 may hang from 2 once 1 has been taken from 0. -/
def rehung : List (TreeOperation 3) := [.addNext 0 1, .addNext 1 2, .popFront 0, .addNext 2 0]

/-- Node 0 hangs from 2 while 2 hangs from 1 and 1 from 0. -/
def looped : List (TreeOperation 3) := [.addNext 0 1, .addNext 1 2, .addNext 2 0]

theorem tree_forest_iff_rehung :
    (TreeOperation.addNext (0 : Fin 3) 3).call (TreeHistory.run rehung).tree =
        .error .outOfBounds (TreeHistory.run rehung).tree ∧
      (∀ pre, pre <+: rehung → Forest.Acyclic (TreeHistory.run pre).tree.parents) ∧
      ¬ ∀ pre, pre <+: looped → Forest.Acyclic (TreeHistory.run pre).tree.parents := by
  have hrehung : ∀ op ∈ rehung, op.Defined := by
    simp [rehung, TreeOperation.Defined]
  have hlooped : ∀ op ∈ looped, op.Defined := by
    simp [looped, TreeOperation.Defined]
  refine ⟨(tree_forest_iff rehung hrehung).1 0 3 _ (by decide), ?_, ?_⟩
  · refine (tree_forest_iff rehung hrehung).2.mpr ?_
    intro pre op hpre
    rcases pre with _ | ⟨x, _ | ⟨y, _ | ⟨z, _ | ⟨_, pre⟩⟩⟩⟩
    all_goals simp only [rehung, List.nil_append, List.cons_append, List.cons_prefix_cons,
      List.nil_prefix, and_true, List.prefix_nil, List.append_eq_nil_iff, List.cons_ne_nil,
      and_false] at hpre
    · subst hpre
      refine TreeOperation.keepsForest_addNext (p := 0) (c := 1) ?_
      intro hreach
      exact absurd (Forest.eq_of_above_root rfl hreach) (by decide)
    · obtain ⟨rfl, rfl⟩ := hpre
      refine TreeOperation.keepsForest_addNext (p := 1) (c := 2) ?_
      intro hreach
      exact absurd (Forest.eq_or_eq_of_above_child (p := 0) hreach rfl rfl) (by decide)
    · obtain ⟨rfl, rfl, rfl⟩ := hpre
      intro p c _ hop
      cases hop
    · obtain ⟨rfl, rfl, rfl, rfl⟩ := hpre
      refine TreeOperation.keepsForest_addNext (p := 2) (c := 0) ?_
      intro hreach
      exact absurd (Forest.eq_or_eq_of_above_child (p := 1) hreach rfl rfl) (by decide)
  · intro hacyclic
    have hkeeps := (tree_forest_iff looped hlooped).2.mp hacyclic
      [.addNext 0 1, .addNext 1 2] (.addNext 2 0) (List.prefix_refl _)
    refine hkeeps 2 0 _ rfl rfl ?_
    exact .head (b := 1) rfl (.single rfl)

/-- A node is accepted as its own child, and a negative index is not rejected. -/
theorem tree_selfAssigned :
    ¬ ((∀ (n : ℕ) (ops : List (TreeOperation n)),
        Forest.Acyclic (TreeHistory.run ops).tree.parents) ∧
      ∀ (n : ℕ) (p : Fin n) (index : ℤ) (t : Tree n), index < 0 ∨ n ≤ index →
        (TreeOperation.addNext p index).call t = .error .outOfBounds t) ∧
    Forest.Child (TreeHistory.run [TreeOperation.addNext (0 : Fin 1) 0]).tree.parents 0 0 ∧
    (TreeOperation.addNext (0 : Fin 1) (-1)).call (.make 1) = .error .invalidAccess (.make 1) := by
  have hself : Forest.Child
      (TreeHistory.run [TreeOperation.addNext (0 : Fin 1) 0]).tree.parents 0 0 := rfl
  exact ⟨fun h => h.1 1 _ 0 (.single hself), hself, rfl⟩

end Gempba
