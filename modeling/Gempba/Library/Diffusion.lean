import Mathlib.Data.Fintype.Card
import Mathlib.Data.Finset.Max
import Mathlib.Data.Multiset.Count

/-!
# Diffusing computations with deferred acknowledgements

Every task is owed one acknowledgement. The first task that reaches a
disengaged process engages it: its sender becomes the parent and its
acknowledgement is the one deferred until the process is passive. The
invariant below states where every owed acknowledgement is: still a task
in flight, an acknowledgement in flight, or deferred by a child. Parents
form a forest because an engaged process is ranked above its parent.
-/

namespace Diffusion

universe u

structure State (P : Type u) where
  parent : P → Option P
  deficit : P → ℕ
  active : P → Prop
  /-- Tasks in flight, as sender and receiver. -/
  tasks : Multiset (P × P)
  /-- Acknowledgements in flight, as sender and receiver. -/
  acks : Multiset (P × P)

variable {P : Type u} [DecidableEq P]

namespace State

def send (p q : P) (s : State P) : State P :=
  { s with deficit := Function.update s.deficit p (s.deficit p + 1), tasks := (p, q) ::ₘ s.tasks }

def engage (p q : P) (s : State P) : State P :=
  { s with parent := Function.update s.parent q (some p), tasks := s.tasks.erase (p, q) }

def refuse (p q : P) (s : State P) : State P :=
  { s with tasks := s.tasks.erase (p, q), acks := (q, p) ::ₘ s.acks }

def collect (q p : P) (s : State P) : State P :=
  { s with deficit := Function.update s.deficit p (s.deficit p - 1), acks := s.acks.erase (q, p) }

def release (p r : P) (s : State P) : State P :=
  { s with parent := Function.update s.parent p none, acks := (p, r) ::ₘ s.acks }

def activate (A : P → Prop) (s : State P) : State P := { s with active := A }

end State

variable [Fintype P]

def children (parent : P → Option P) (p : P) : Finset P :=
  Finset.univ.filter fun q => parent q = some p

def State.owed (s : State P) (p : P) : ℕ :=
  s.tasks.countP (fun m => m.1 = p) + s.acks.countP (fun m => m.2 = p) + (children s.parent p).card

structure Balanced (root : P) (s : State P) : Prop where
  owed_eq : ∀ p, s.deficit p = s.owed p
  root_free : s.parent root = none
  disengaged : ∀ p, p ≠ root → s.parent p = none → s.deficit p = 0 ∧ ¬ s.active p
  ranked : ∃ rank : P → ℕ, ∀ q p, s.parent q = some p → rank p < rank q

omit [Fintype P] in
theorem countP_erase_add {m : P × P} {ms : Multiset (P × P)} (h : m ∈ ms) (test : P × P → Prop)
    [DecidablePred test] :
    (ms.erase m).countP test + (if test m then 1 else 0) = ms.countP test := by
  conv_rhs => rw [← Multiset.cons_erase h]
  rw [Multiset.countP_cons]

theorem children_card_update_some {parent : P → Option P} {q : P} (hq : parent q = none)
    (r p : P) : (children (Function.update parent q (some r)) p).card =
      (children parent p).card + (if r = p then 1 else 0) := by
  by_cases hr : r = p
  · subst hr
    have hset : children (Function.update parent q (some r)) r = insert q (children parent r) := by
      ext x
      by_cases hx : x = q <;> simp [children, hx]
    rw [hset, Finset.card_insert_of_notMem (by simp [children, hq]), if_pos rfl]
  · have hset : children (Function.update parent q (some r)) p = children parent p := by
      ext x
      by_cases hx : x = q <;> simp [children, hx, hq, hr]
    rw [hset, if_neg hr, Nat.add_zero]

theorem children_card_update_none {parent : P → Option P} {q r : P} (hq : parent q = some r)
    (p : P) : (children (Function.update parent q none) p).card + (if r = p then 1 else 0) =
      (children parent p).card := by
  by_cases hr : r = p
  · subst hr
    have hset : children (Function.update parent q none) r = (children parent r).erase q := by
      ext x
      by_cases hx : x = q <;> simp [children, hx]
    have hmem : q ∈ children parent r := by simp [children, hq]
    rw [hset, if_pos rfl, Finset.card_erase_add_one hmem]
  · have hset : children (Function.update parent q none) p = children parent p := by
      ext x
      by_cases hx : x = q
      · simp [children, hx, hq, hr]
      · simp [children, hx]
    rw [hset, if_neg hr, Nat.add_zero]

namespace Balanced

variable {root : P} {s : State P}

theorem deficit_pos_of_task (h : Balanced root s) {p q : P} (hm : (p, q) ∈ s.tasks) :
    0 < s.deficit p := by
  have hc : 0 < s.tasks.countP (fun m => m.1 = p) := Multiset.countP_pos.mpr ⟨(p, q), hm, rfl⟩
  rw [h.owed_eq, State.owed]
  omega

theorem deficit_pos_of_ack (h : Balanced root s) {p q : P} (hm : (q, p) ∈ s.acks) :
    0 < s.deficit p := by
  have hc : 0 < s.acks.countP (fun m => m.2 = p) := Multiset.countP_pos.mpr ⟨(q, p), hm, rfl⟩
  rw [h.owed_eq, State.owed]
  omega

theorem deficit_pos_of_child (h : Balanced root s) {p q : P} (hq : s.parent q = some p) :
    0 < s.deficit p := by
  have hc : 0 < (children s.parent p).card :=
    Finset.card_pos.mpr ⟨q, by simp [children, hq]⟩
  rw [h.owed_eq, State.owed]
  omega

/-- Only the root and engaged processes owe or are owed anything. -/
theorem engaged_of_deficit (h : Balanced root s) {p : P} (hp : 0 < s.deficit p) :
    p = root ∨ s.parent p ≠ none := by
  by_cases hr : p = root
  · exact Or.inl hr
  · refine Or.inr fun hn => ?_
    have hd := (h.disengaged p hr hn).1
    omega

theorem send (h : Balanced root s) {p : P} (q : P) (hp : p = root ∨ s.parent p ≠ none) :
    Balanced root (s.send p q) where
  owed_eq x := by
    have hx := h.owed_eq x
    simp only [State.owed, State.send, Multiset.countP_cons] at hx ⊢
    by_cases hxp : x = p
    · subst hxp
      simp only [Function.update_self, if_pos]
      omega
    · simp only [Function.update_of_ne hxp, if_neg (Ne.symm hxp)]
      omega
  root_free := h.root_free
  disengaged x hx hn := by
    have hxp : x ≠ p := by
      rintro rfl
      exact hp.elim hx (fun hp => hp hn)
    obtain ⟨hd, ha⟩ := h.disengaged x hx hn
    exact ⟨by simpa [State.send, Function.update_of_ne hxp] using hd, ha⟩
  ranked := h.ranked

theorem engage (h : Balanced root s) {p q : P} (hm : (p, q) ∈ s.tasks) (hq : q ≠ root)
    (hn : s.parent q = none) : Balanced root (s.engage p q) where
  owed_eq x := by
    have hx := h.owed_eq x
    have ht := countP_erase_add hm (fun m => m.1 = x)
    have hc := children_card_update_some hn p x
    simp only [State.owed, State.engage] at hx ht ⊢
    omega
  root_free := by simpa [State.engage, Function.update_of_ne hq.symm] using h.root_free
  disengaged x hx hxn := by
    have hxq : x ≠ q := by
      rintro rfl
      simp [State.engage] at hxn
    exact h.disengaged x hx (by simpa [State.engage, Function.update_of_ne hxq] using hxn)
  ranked := by
    obtain ⟨rank, hrank⟩ := h.ranked
    -- A disengaged process has no child, so it may be ranked afresh above its new parent.
    have hchild : ∀ x, s.parent x ≠ some q := fun x hx => by
      have hd := h.deficit_pos_of_child hx
      have h0 := (h.disengaged q hq hn).1
      omega
    have hpq : p ≠ q := by
      rintro rfl
      have hd := h.deficit_pos_of_task hm
      have h0 := (h.disengaged p hq hn).1
      omega
    refine ⟨Function.update rank q (rank p + 1), fun x r hxr => ?_⟩
    by_cases hxq : x = q
    · subst hxq
      have hr : p = r := by simpa [State.engage] using hxr
      subst hr
      simp [Function.update_of_ne hpq]
    · have hxr : s.parent x = some r := by
        simpa [State.engage, Function.update_of_ne hxq] using hxr
      have hrq : r ≠ q := by
        rintro rfl
        exact hchild x ‹_›
      simpa [Function.update_of_ne hxq, Function.update_of_ne hrq] using hrank x r hxr

theorem refuse (h : Balanced root s) {p q : P} (hm : (p, q) ∈ s.tasks) :
    Balanced root (s.refuse p q) where
  owed_eq x := by
    have hx := h.owed_eq x
    have ht := countP_erase_add hm (fun m => m.1 = x)
    simp only [State.owed, State.refuse, Multiset.countP_cons] at hx ht ⊢
    omega
  root_free := h.root_free
  disengaged := h.disengaged
  ranked := h.ranked

theorem collect (h : Balanced root s) {p q : P} (hm : (q, p) ∈ s.acks) :
    Balanced root (s.collect q p) where
  owed_eq x := by
    have hx := h.owed_eq x
    have hp := h.deficit_pos_of_ack hm
    have ha := countP_erase_add hm (fun m => m.2 = x)
    simp only [State.owed, State.collect] at hx ⊢
    by_cases hxp : x = p
    · subst hxp
      simp only [if_pos, Function.update_self] at ha ⊢
      omega
    · simp only [if_neg (Ne.symm hxp), Function.update_of_ne hxp] at ha ⊢
      omega
  root_free := h.root_free
  disengaged x hx hn := by
    obtain ⟨hd, ha⟩ := h.disengaged x hx hn
    have hxp : x ≠ p := by
      rintro rfl
      have hp := h.deficit_pos_of_ack hm
      omega
    exact ⟨by simpa [State.collect, Function.update_of_ne hxp] using hd, ha⟩
  ranked := h.ranked

theorem release (h : Balanced root s) {p r : P} (hp : s.parent p = some r)
    (hd : s.deficit p = 0) (ha : ¬ s.active p) : Balanced root (s.release p r) where
  owed_eq x := by
    have hx := h.owed_eq x
    have hc := children_card_update_none hp x
    simp only [State.owed, State.release, Multiset.countP_cons] at hx ⊢
    omega
  root_free := by
    have hpr : root ≠ p := by
      rintro rfl
      simp [h.root_free] at hp
    simpa [State.release, Function.update_of_ne hpr] using h.root_free
  disengaged x hx hxn := by
    by_cases hxp : x = p
    · subst hxp
      exact ⟨hd, ha⟩
    · exact h.disengaged x hx (by simpa [State.release, Function.update_of_ne hxp] using hxn)
  ranked := by
    obtain ⟨rank, hrank⟩ := h.ranked
    refine ⟨rank, fun x y hxy => ?_⟩
    by_cases hxp : x = p
    · subst hxp
      simp [State.release] at hxy
    · exact hrank x y (by simpa [State.release, Function.update_of_ne hxp] using hxy)

theorem activate (h : Balanced root s) {A : P → Prop}
    (hA : ∀ p, p ≠ root → s.parent p = none → ¬ A p) : Balanced root (s.activate A) where
  owed_eq := h.owed_eq
  root_free := h.root_free
  disengaged p hp hn := ⟨(h.disengaged p hp hn).1, hA p hp hn⟩
  ranked := h.ranked

/-- An engaged process of least rank is a child of the root, so a root that is owed
nothing has no engaged process below it. -/
theorem parent_none_of_root (h : Balanced root s) (hd : s.deficit root = 0) (p : P) :
    s.parent p = none := by
  obtain ⟨rank, hrank⟩ := h.ranked
  induction hn : rank p using Nat.strong_induction_on generalizing p with
  | _ n ih =>
    subst hn
    cases hp : s.parent p with
    | none => rfl
    | some r =>
      have hr := h.deficit_pos_of_child hp
      obtain rfl | hne := h.engaged_of_deficit hr
      · omega
      · exact absurd (ih (rank r) (hrank p r hp) r rfl) hne

structure Quiet (root : P) (s : State P) : Prop where
  parent_none : ∀ p, s.parent p = none
  deficit_zero : ∀ p, s.deficit p = 0
  passive : ∀ p, p ≠ root → ¬ s.active p
  no_task : s.tasks = 0
  no_ack : s.acks = 0

/-- Safety: when the root is owed nothing, nothing is left anywhere. -/
theorem quiet (h : Balanced root s) (hd : s.deficit root = 0) : Quiet root s := by
  have hparent := h.parent_none_of_root hd
  have hdeficit : ∀ p, s.deficit p = 0 := fun p => by
    by_cases hp : p = root
    · exact hp ▸ hd
    · exact (h.disengaged p hp (hparent p)).1
  refine ⟨hparent, hdeficit, fun p hp => (h.disengaged p hp (hparent p)).2, ?_, ?_⟩
  · refine Multiset.eq_zero_of_forall_notMem fun m hm => ?_
    have hpos := h.deficit_pos_of_task (p := m.1) (q := m.2) hm
    have h0 := hdeficit m.1
    omega
  · refine Multiset.eq_zero_of_forall_notMem fun m hm => ?_
    have hpos := h.deficit_pos_of_ack (p := m.2) (q := m.1) hm
    have h0 := hdeficit m.2
    omega

/-- Progress: with nothing in flight and no acknowledgement withheld by a process that is
owed nothing itself, the root is owed nothing. An engaged process of greatest rank would
have a child above it. -/
theorem root_deficit_zero (h : Balanced root s) (ht : s.tasks = 0) (ha : s.acks = 0)
    (hheld : ∀ p, s.parent p ≠ none → s.deficit p ≠ 0) : s.deficit root = 0 := by
  have hchildren : ∀ p, s.deficit p = (children s.parent p).card := fun p => by
    simp [h.owed_eq p, State.owed, ht, ha]
  have hnone : ∀ p, s.parent p = none := by
    by_contra hex
    push Not at hex
    obtain ⟨rank, hrank⟩ := h.ranked
    have hne : (Finset.univ.filter fun p => s.parent p ≠ none).Nonempty := by
      obtain ⟨p, hp⟩ := hex
      exact ⟨p, by simpa using hp⟩
    obtain ⟨top, htop, hmax⟩ := Finset.exists_max_image _ rank hne
    have hengaged : s.parent top ≠ none := by simpa using htop
    have hcard : 0 < (children s.parent top).card := by
      have h0 := hheld top hengaged
      rw [hchildren] at h0
      omega
    obtain ⟨q, hq⟩ := Finset.card_pos.mp hcard
    have hq : s.parent q = some top := by simpa [children] using hq
    have hle := hmax q (by simp [hq])
    have hlt := hrank q top hq
    omega
  rw [hchildren]
  simp [children, hnone]

end Balanced

end Diffusion
