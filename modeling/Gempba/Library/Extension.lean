import Gempba.Library.Machine

/-!
# A machine with a component that reacts to its steps

The component sees the label and both ends of each step, and a reading of its
own; it may stop a step or raise an error. What is reachable with it is
reachable without.
-/

namespace Transition.Machine

universe u v w x y

variable {σ : Type u} {ι : Type v} {ε : Type w} {α : Type u} {ρ : Type y}

def extend (M : Machine σ ι ε) (start : σ → α → Prop)
    (react : ρ → ι → σ → σ → α → Outcome ε α) : Machine (σ × α) (ι × ρ) ε where
  initial s := M.initial s.1 ∧ start s.1 s.2
  step l s := (M.step l.1 s.1).bind fun t => (react l.2 l.1 s.1 t s.2).map fun a => (t, a)

variable {M : Machine σ ι ε} {start : σ → α → Prop} {react : ρ → ι → σ → σ → α → Outcome ε α}

theorem extend_moved {l : ι × ρ} {s t : σ × α} :
    (M.extend start react).step l s = .moved t ↔
      M.step l.1 s.1 = .moved t.1 ∧ react l.2 l.1 s.1 t.1 s.2 = .moved t.2 := by
  change (M.step l.1 s.1).bind _ = .moved t ↔ _
  rw [Outcome.bind_eq_moved]
  constructor
  · rintro ⟨u, hu, hreact⟩
    obtain ⟨a, ha, rfl⟩ := Outcome.map_eq_moved.mp hreact
    exact ⟨hu, ha⟩
  · rintro ⟨hu, ha⟩
    exact ⟨t.1, hu, Outcome.map_eq_moved.mpr ⟨t.2, ha, rfl⟩⟩

variable {P : σ × α → ι × ρ → Prop}

theorem ReachableWhere.base {s : σ × α} (h : (M.extend start react).ReachableWhere P s) :
    M.Reachable s.1 := by
  refine h.observe (N := M) Prod.fst (fun _ hs => And.left hs) fun _ l _ _ _ hst => ?_
  exact Or.inr ⟨l.1, trivial, (extend_moved.mp hst).1⟩

/-- The invariant rule of an extended machine. -/
theorem ReachableWhere.extension {I : σ → α → Prop}
    (h0 : ∀ s a, M.initial s → start s a → I s a)
    (hstep : ∀ s a l r t b, M.Reachable s → I s a → M.step l s = .moved t →
      react r l s t a = .moved b → I t b)
    {s : σ × α} (h : (M.extend start react).ReachableWhere P s) : I s.1 s.2 := by
  refine h.invariant (I := fun s => I s.1 s.2) (fun s hs => h0 s.1 s.2 (And.left hs) (And.right hs))
    ?_
  intro s l t hs hI _ hst
  obtain ⟨hbase, hreact⟩ := extend_moved.mp hst
  exact hstep s.1 s.2 l.1 l.2 t.1 t.2 hs.base hI hbase hreact

end Transition.Machine
