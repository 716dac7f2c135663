import Mathlib.Data.List.Nodup
import Mathlib.Logic.Function.Basic
import Mathlib.Logic.Relation

/-!
# Parent maps and ordered families

A parent map is acyclic when no element is above itself. An ordered family
lists the children of every element in the order of their attachment, and
each child knows the one list it is in.
-/

namespace Forest

universe u

variable {ι : Type u}

/-- `p` is the parent of `c`. -/
def Child (parent : ι → Option ι) (c p : ι) : Prop := parent c = some p

/-- No element is its own ancestor. -/
def Acyclic (parent : ι → Option ι) : Prop := ∀ x, ¬ Relation.TransGen (Child parent) x x

theorem Acyclic.mono {parent parent' : ι → Option ι} (h : Acyclic parent)
    (hsub : ∀ c p, parent' c = some p → parent c = some p) : Acyclic parent' :=
  fun x hx => h x (Relation.TransGen.mono (fun c p hcp => hsub c p hcp) x x hx)

/-- A map along which some number grows has no cycle. -/
theorem acyclic_of_lt {parent : ι → Option ι} (f : ι → ℕ)
    (hf : ∀ c p, parent c = some p → f p < f c) : Acyclic parent := by
  have hlt : ∀ x y, Relation.TransGen (Child parent) x y → f y < f x := by
    intro x y hxy
    induction hxy with
    | single h => exact hf _ _ h
    | tail _ h ih => exact Nat.lt_trans (hf _ _ h) ih
  exact fun x hx => Nat.lt_irrefl _ (hlt x x hx)

theorem eq_of_above_root {parent : ι → Option ι} {p x : ι} (hp : parent p = none)
    (h : Relation.ReflTransGen (Child parent) p x) : x = p := by
  induction h with
  | refl => rfl
  | tail _ hstep ih =>
    subst ih
    simp [Child, hp] at hstep

theorem eq_or_eq_of_above_child {parent : ι → Option ι} {c p x : ι}
    (h : Relation.ReflTransGen (Child parent) c x) (hc : parent c = some p)
    (hp : parent p = none) : x = c ∨ x = p := by
  obtain rfl | ⟨q, hq, hrest⟩ := h.cases_head
  · exact Or.inl rfl
  · obtain rfl : p = q := Option.some.inj (hc.symm.trans hq)
    exact Or.inr (eq_of_above_root hp hrest)

section Update

variable [DecidableEq ι]

/-- Hanging an orphan below an element closes a cycle exactly when it is that element or one
above it. -/
theorem acyclic_attach_iff {parent : ι → Option ι} (h : Acyclic parent) {p c : ι}
    (hc : parent c = none) :
    Acyclic (Function.update parent c (some p)) ↔
      ¬ Relation.ReflTransGen (Child parent) p c := by
  have hself : Child (Function.update parent c (some p)) c p := by
    rw [Child, Function.update_self]
  constructor
  · intro hacyclic hpath
    -- the path avoids the links of `c`, which has none
    have hkeep : ∀ x y, Child parent x y → Child (Function.update parent c (some p)) x y := by
      intro x y hxy
      have hne : x ≠ c := by
        rintro rfl
        rw [Child, hc] at hxy
        cases hxy
      rw [Child, Function.update_of_ne hne]
      exact hxy
    exact hacyclic c (.head' hself (Relation.ReflTransGen.mono hkeep p c hpath))
  · intro hfree
    -- a new path either is an old one or passes from `c` to `p`
    have hpath : ∀ x y, Relation.TransGen (Child (Function.update parent c (some p))) x y →
        Relation.TransGen (Child parent) x y ∨
          Relation.ReflTransGen (Child parent) x c ∧ Relation.ReflTransGen (Child parent) p y := by
      intro x y hxy
      induction hxy with
      | single hstep =>
        rename_i y
        obtain rfl | hx := eq_or_ne x c
        · rw [Child, Function.update_self] at hstep
          obtain rfl := Option.some.inj hstep
          exact Or.inr ⟨.refl, .refl⟩
        · rw [Child, Function.update_of_ne hx] at hstep
          exact Or.inl (.single hstep)
      | tail hxz hstep ih =>
        rename_i z y
        obtain rfl | hz := eq_or_ne z c
        · rw [Child, Function.update_self] at hstep
          obtain rfl := Option.some.inj hstep
          obtain hxz | ⟨hxz, -⟩ := ih
          · exact Or.inr ⟨hxz.to_reflTransGen, .refl⟩
          · exact Or.inr ⟨hxz, .refl⟩
        · have hold : Child parent z y := by rwa [Child, Function.update_of_ne hz] at hstep
          obtain hxz | ⟨hxc, hpz⟩ := ih
          · exact Or.inl (hxz.tail hold)
          · exact Or.inr ⟨hxc, hpz.tail hold⟩
    intro x hx
    obtain hold | ⟨hxc, hpx⟩ := hpath x x hx
    · exact h x hold
    · exact hfree (hpx.trans hxc)

theorem Acyclic.attach {parent : ι → Option ι} (h : Acyclic parent) {p c : ι}
    (hp : parent p = none) (hc : parent c = none) (hne : p ≠ c) :
    Acyclic (Function.update parent c (some p)) :=
  (acyclic_attach_iff h hc).mpr fun hpath => hne (eq_of_above_root hp hpath).symm

theorem Acyclic.detach {parent : ι → Option ι} (h : Acyclic parent) (c : ι) :
    Acyclic (Function.update parent c none) := by
  refine h.mono fun x p hx => ?_
  by_cases hxc : x = c
  · subst hxc
    simp at hx
  · rwa [Function.update_of_ne hxc] at hx

end Update

/-- Children in order, each in the list of its parent and in no other. -/
structure Ordered (ι : Type u) where
  parent : ι → Option ι
  children : ι → List ι
  nodup : ∀ p, (children p).Nodup
  mem_children : ∀ p c, c ∈ children p ↔ parent c = some p

namespace Ordered

def empty : Ordered ι := ⟨fun _ => none, fun _ => [], fun _ => List.nodup_nil, by simp⟩

variable [DecidableEq ι]

/-- The orphan `c` becomes the last child of `p`. -/
def attach (F : Ordered ι) (p c : ι) (hc : F.parent c = none) : Ordered ι where
  parent := Function.update F.parent c (some p)
  children := Function.update F.children p (F.children p ++ [c])
  nodup q := by
    have hnew : c ∉ F.children p := by simp [F.mem_children, hc]
    by_cases hq : q = p
    · subst hq
      rw [Function.update_self]
      exact List.nodup_append.mpr ⟨F.nodup q, List.nodup_singleton c,
        fun a ha b hb => by rw [List.mem_singleton.mp hb]; exact fun he => hnew (he ▸ ha)⟩
    · rw [Function.update_of_ne hq]
      exact F.nodup q
  mem_children q d := by
    by_cases hq : q = p <;> by_cases hd : d = c
    · subst hq hd
      simp
    · subst hq
      simp [F.mem_children, hd]
    · subst hd
      simp [Function.update_of_ne hq, F.mem_children, hc, Ne.symm hq]
    · simp [Function.update_of_ne hq, Function.update_of_ne hd, F.mem_children]

/-- `c` leaves the list it is in. -/
def detach (F : Ordered ι) (c : ι) : Ordered ι where
  parent := Function.update F.parent c none
  children q := (F.children q).erase c
  nodup q := (F.nodup q).erase c
  mem_children q d := by
    by_cases hd : d = c
    · subst hd
      simp [(F.nodup q).mem_erase_iff]
    · rw [Function.update_of_ne hd, List.mem_erase_of_ne hd, F.mem_children]

theorem detach_children_of_ne (F : Ordered ι) {c q : ι} (hq : F.parent c ≠ some q) :
    (F.detach c).children q = F.children q :=
  List.erase_of_not_mem fun hmem => hq ((F.mem_children q c).mp hmem)

theorem detach_of_orphan (F : Ordered ι) {c : ι} (hc : F.parent c = none) : F.detach c = F := by
  have hparent : Function.update F.parent c none = F.parent := by
    rw [← hc, Function.update_eq_self]
  have hchildren : (fun q => (F.children q).erase c) = F.children := by
    funext q
    exact F.detach_children_of_ne (by simp [hc])
  cases F
  simp only [detach, mk.injEq]
  exact ⟨hparent, hchildren⟩

end Ordered

end Forest
