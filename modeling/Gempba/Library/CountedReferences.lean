import Mathlib.Data.List.Nodup
import Mathlib.Logic.Function.Basic
import Mathlib.Logic.Relation

/-!
# Objects with counted references

An object is in memory while its counter is positive. Whoever gives up the last
reference to an object destroys it, and is left with the references that it
held. What a cycle of objects holds stays in memory.
-/

namespace Counted

set_option autoImplicit false

variable {ε ι : Type}

/-- References are held by objects, and from outside of them. -/
inductive Owner (ε ι : Type) where
  | outside (e : ε)
  | object (x : ι)
  deriving DecidableEq, Repr

structure Store (ε ι : Type) where
  refs : List (Owner ε ι × ι)
  count : ι → ℕ
  made : List ι
  destroyed : List ι

namespace Store

def empty : Store ε ι := ⟨[], fun _ => 0, [], []⟩

def InMemory (x : ι) (s : Store ε ι) : Prop := 0 < s.count x

instance (x : ι) (s : Store ε ι) : Decidable (s.InMemory x) :=
  inferInstanceAs (Decidable (0 < _))

/-- Whoever is no object is always there. -/
def Present (o : Owner ε ι) (s : Store ε ι) : Prop :=
  match o with
  | .outside _ => True
  | .object y => s.InMemory y

instance (o : Owner ε ι) (s : Store ε ι) : Decidable (s.Present o) :=
  match o with
  | .outside _ => isTrue trivial
  | .object y => inferInstanceAs (Decidable (s.InMemory y))

/-- The references of an object that is destroyed. -/
def inherit [DecidableEq ι] (e : ε) (x : ι) : Owner ε ι × ι → Owner ε ι × ι
  | (.outside e', z) => (.outside e', z)
  | (.object y, z) => if y = x then (.outside e, z) else (.object y, z)

section Operations

variable [DecidableEq ι]

def make (e : ε) (x : ι) (s : Store ε ι) : Store ε ι :=
  { s with
    refs := s.refs ++ [(.outside e, x)]
    count := Function.update s.count x 1
    made := s.made ++ [x] }

/-- One more reference. -/
def share (o : Owner ε ι) (x : ι) (s : Store ε ι) : Store ε ι :=
  { s with
    refs := s.refs ++ [(o, x)]
    count := Function.update s.count x (s.count x + 1) }

variable [DecidableEq ε]

def move (o o' : Owner ε ι) (x : ι) (s : Store ε ι) : Store ε ι :=
  { s with refs := s.refs.erase (o, x) ++ [(o', x)] }

/-- `e` gives up a reference. -/
def drop (e : ε) (x : ι) (s : Store ε ι) : Store ε ι :=
  let refs := s.refs.erase (.outside e, x)
  if s.count x = 1 then
    { s with
      refs := refs.map (inherit e x)
      count := Function.update s.count x 0
      destroyed := s.destroyed ++ [x] }
  else { s with refs, count := Function.update s.count x (s.count x - 1) }

end Operations

/-- The counters count, only what is in memory holds references, and nothing is destroyed
twice. -/
structure Sound [DecidableEq ι] (s : Store ε ι) : Prop where
  counted : ∀ x, s.count x = (s.refs.map Prod.snd).count x
  present : ∀ o x, (o, x) ∈ s.refs → s.Present o
  made : ∀ x, x ∈ s.made ↔ s.InMemory x ∨ x ∈ s.destroyed
  gone : ∀ x ∈ s.destroyed, ¬ s.InMemory x
  once : s.destroyed.Nodup

section Rules

variable [DecidableEq ι] {s : Store ε ι} {o o' : Owner ε ι} {e : ε} {x y : ι}

theorem sound_empty : Sound (empty : Store ε ι) where
  counted x := rfl
  present o x h := by cases h
  made x := by
    constructor
    · intro h
      cases h
    · rintro (h | h)
      · exact absurd h (Nat.lt_irrefl 0)
      · cases h
  gone x h := by cases h
  once := List.nodup_nil

theorem Sound.inMemory (h : s.Sound) (href : (o, x) ∈ s.refs) : s.InMemory x := by
  rw [InMemory, h.counted, List.count_pos_iff]
  exact List.mem_map_of_mem (f := Prod.snd) href

theorem Sound.exists_owner (h : s.Sound) (hx : s.InMemory x) : ∃ o, (o, x) ∈ s.refs := by
  rw [InMemory, h.counted, List.count_pos_iff, List.mem_map] at hx
  obtain ⟨⟨o, y⟩, href, rfl⟩ := hx
  exact ⟨o, href⟩

theorem Sound.count_destroyed (h : s.Sound) (hx : x ∈ s.made) :
    s.destroyed.count x = if s.InMemory x then 0 else 1 := by
  split
  · rename_i hmemory
    rw [List.count_eq_zero]
    intro hmem
    exact h.gone x hmem hmemory
  · rename_i hmemory
    have hmem := ((h.made x).mp hx).resolve_left hmemory
    exact List.count_eq_one_of_mem h.once hmem

/-- The owners of a reference are above its object. -/
def Holds (s : Store ε ι) (y x : ι) : Prop := (.object y, x) ∈ s.refs

/-- Without a cycle, what is in memory is reached from outside. -/
theorem Sound.reached (h : s.Sound) {depth : ι → ℕ}
    (hdepth : ∀ y x, s.Holds y x → depth y < depth x) (hx : s.InMemory x) :
    ∃ e y, (.outside e, y) ∈ s.refs ∧ Relation.ReflTransGen s.Holds y x := by
  induction hn : depth x using Nat.strongRecOn generalizing x with
  | _ n ih =>
    subst hn
    obtain ⟨o, href⟩ := h.exists_owner hx
    cases o with
    | outside e => exact ⟨e, x, href, .refl⟩
    | object y =>
      obtain ⟨e, z, hz, hzy⟩ := ih (depth y) (hdepth y x href) (h.present _ _ href) rfl
      exact ⟨e, z, hz, hzy.tail href⟩

theorem mem_refs_share {ref : Owner ε ι × ι} :
    ref ∈ (s.share o x).refs ↔ ref ∈ s.refs ∨ ref = (o, x) := by
  rw [Store.share, List.mem_append, List.mem_singleton]

theorem mem_refs_make {ref : Owner ε ι × ι} :
    ref ∈ (s.make e x).refs ↔ ref ∈ s.refs ∨ ref = (.outside e, x) := by
  rw [Store.make, List.mem_append, List.mem_singleton]

theorem count_make : (s.make e x).count y = if y = x then 1 else s.count y :=
  Function.update_apply ..

theorem count_share : (s.share o x).count y = if y = x then s.count x + 1 else s.count y :=
  Function.update_apply ..

theorem inMemory_make : (s.make e x).InMemory y ↔ y = x ∨ s.InMemory y := by
  rw [InMemory, count_make]
  split
  · simp [*]
  · simp [*, InMemory]

theorem inMemory_share : (s.share o x).InMemory y ↔ y = x ∨ s.InMemory y := by
  rw [InMemory, count_share]
  split
  · simp [*]
  · simp [*, InMemory]

omit [DecidableEq ι] in
theorem Present.mono {t : Store ε ι} (h : s.Present o)
    (hst : ∀ y, s.InMemory y → t.InMemory y) : t.Present o := by
  cases o with
  | outside e => trivial
  | object y => exact hst y h

theorem count_concat (refs : List (Owner ε ι × ι)) :
    ((refs ++ [(o, x)]).map Prod.snd).count y =
      (refs.map Prod.snd).count y + if y = x then 1 else 0 := by
  rw [List.map_append, List.count_append, List.map_singleton, List.count_singleton]
  simp only [beq_iff_eq, eq_comm (a := x)]

theorem Sound.make (h : s.Sound) (hx : x ∉ s.made) : (s.make e x).Sound := by
  have hmemory : ¬ s.InMemory x := fun hmemory => hx ((h.made x).mpr (.inl hmemory))
  have hcount : s.count x = 0 := Nat.eq_zero_of_not_pos hmemory
  constructor
  · intro y
    rw [count_make, Store.make, count_concat, ← h.counted]
    split
    · rename_i hy
      rw [hy, hcount]
    · rfl
  · intro o z hz
    obtain hz | hz := List.mem_append.mp hz
    · exact (h.present o z hz).mono fun y hy => inMemory_make.mpr (.inr hy)
    · rw [List.mem_singleton] at hz
      cases hz
      trivial
  · intro y
    rw [inMemory_make, Store.make, List.mem_append, List.mem_singleton, h.made]
    constructor
    · rintro ((hy | hy) | hy)
      · exact .inl (.inr hy)
      · exact .inr hy
      · exact .inl (.inl hy)
    · rintro ((hy | hy) | hy)
      · exact .inr hy
      · exact .inl (.inl hy)
      · exact .inl (.inr hy)
  · intro y hy
    rw [inMemory_make, not_or]
    refine ⟨?_, h.gone y hy⟩
    rintro rfl
    exact hx ((h.made y).mpr (.inr hy))
  · exact h.once

theorem Sound.share (h : s.Sound) (hx : s.InMemory x) (ho : s.Present o) :
    (s.share o x).Sound := by
  have hmemory : ∀ y, (s.share o x).InMemory y ↔ s.InMemory y := by
    intro y
    rw [inMemory_share]
    constructor
    · rintro (rfl | hy)
      · exact hx
      · exact hy
    · exact .inr
  constructor
  · intro y
    rw [count_share, Store.share, count_concat, ← h.counted]
    split
    · rename_i hy
      rw [hy]
    · rfl
  · intro o' z hz
    obtain hz | hz := List.mem_append.mp hz
    · exact (h.present o' z hz).mono fun y hy => (hmemory y).mpr hy
    · rw [List.mem_singleton] at hz
      cases hz
      exact ho.mono fun y hy => (hmemory y).mpr hy
  · intro y
    rw [hmemory]
    exact h.made y
  · intro y hy
    rw [hmemory]
    exact h.gone y hy
  · exact h.once

variable [DecidableEq ε]

theorem count_erase {refs : List (Owner ε ι × ι)} (href : (o, x) ∈ refs) :
    (refs.map Prod.snd).count y =
      ((refs.erase (o, x)).map Prod.snd).count y + if y = x then 1 else 0 := by
  have hperm := (List.perm_cons_erase href).map Prod.snd
  rw [hperm.count_eq, List.map_cons, List.count_cons]
  simp only [beq_iff_eq, eq_comm (a := x)]

theorem mem_refs_move {ref : Owner ε ι × ι} (h : ref ∈ (s.move o o' x).refs) :
    ref ∈ s.refs ∨ ref = (o', x) := by
  rw [Store.move, List.mem_append, List.mem_singleton] at h
  exact h.imp_left List.mem_of_mem_erase

theorem mem_refs_move_of_ne {ref : Owner ε ι × ι} (href : ref ∈ s.refs) (hne : ref ≠ (o, x)) :
    ref ∈ (s.move o o' x).refs :=
  List.mem_append_left _ ((List.mem_erase_of_ne hne).mpr href)

theorem Sound.move (h : s.Sound) (href : (o, x) ∈ s.refs) (ho' : s.Present o') :
    (s.move o o' x).Sound := by
  constructor
  · intro y
    rw [Store.move, count_concat]
    exact (h.counted y).trans (count_erase href)
  · intro o'' z hz
    obtain hz | hz := List.mem_append.mp hz
    · exact h.present o'' z (List.mem_of_mem_erase hz)
    · rw [List.mem_singleton] at hz
      cases hz
      exact ho'
  · exact h.made
  · exact h.gone
  · exact h.once

omit [DecidableEq ε] in
/-- No reference is left to an object that is destroyed. -/
theorem inherit_cases (e : ε) (x : ι) (ref : Owner ε ι × ι) :
    inherit e x ref = (.outside e, ref.2) ∧ ref.1 = .object x ∨
      inherit e x ref = ref ∧ ref.1 ≠ .object x := by
  obtain ⟨o, z⟩ := ref
  cases o with
  | outside e' =>
    right
    exact ⟨rfl, fun h => by cases h⟩
  | object y =>
    rw [inherit]
    split
    · rename_i hy
      left
      exact ⟨rfl, congrArg _ hy⟩
    · rename_i hy
      right
      exact ⟨rfl, fun h => hy (Owner.object.inj h)⟩

theorem count_drop : (s.drop e x).count y = if y = x then s.count x - 1 else s.count y := by
  rw [drop]
  split
  · rename_i hcount
    rw [hcount]
    exact Function.update_apply ..
  · exact Function.update_apply ..

theorem made_drop : (s.drop e x).made = s.made := by
  rw [drop]
  split <;> rfl

theorem destroyed_drop : (s.drop e x).destroyed =
    if s.count x = 1 then s.destroyed ++ [x] else s.destroyed := by
  rw [drop]
  split <;> rfl

theorem snd_refs_drop :
    (s.drop e x).refs.map Prod.snd = (s.refs.erase (.outside e, x)).map Prod.snd := by
  rw [drop]
  split
  · rw [List.map_map]
    apply List.map_congr_left
    intro ref _
    obtain ⟨heq, -⟩ | ⟨heq, -⟩ := inherit_cases e x ref
    · rw [Function.comp_apply, heq]
    · rw [Function.comp_apply, heq]
  · rfl

/-- A reference that is left was there before, perhaps in the object that is destroyed. -/
theorem mem_refs_drop {z : ι} (h : (o, z) ∈ (s.drop e x).refs) :
    (o, z) ∈ s.refs ∧ (s.count x = 1 → o ≠ .object x) ∨
      o = .outside e ∧ (.object x, z) ∈ s.refs := by
  rw [drop] at h
  split at h
  · rename_i hcount
    obtain ⟨ref, href, heq⟩ := List.mem_map.mp h
    have hmem := List.mem_of_mem_erase href
    obtain ⟨heq', howner⟩ | ⟨heq', howner⟩ := inherit_cases e x ref
    · right
      rw [heq'] at heq
      cases heq
      rw [← howner]
      exact ⟨rfl, hmem⟩
    · left
      rw [heq'] at heq
      subst heq
      exact ⟨hmem, fun _ => howner⟩
  · rename_i hcount
    exact .inl ⟨List.mem_of_mem_erase h, fun hone => absurd hone hcount⟩

theorem inMemory_drop : (s.drop e x).InMemory y ↔ s.InMemory y ∧ (y = x → s.count x ≠ 1) := by
  rw [InMemory, InMemory, count_drop]
  split
  · rename_i hy
    subst hy
    simp only [forall_const]
    omega
  · rename_i hy
    simp only [hy, false_implies, and_true]

/-- An object that is left keeps what it holds. -/
theorem mem_refs_drop_of_object {z : ι} (href : (.object y, z) ∈ s.refs)
    (hy : (s.drop e x).InMemory y) : (.object y, z) ∈ (s.drop e x).refs := by
  have hne : (Owner.object y, z) ≠ (.outside e, x) := fun h => by cases h
  have hmem := (List.mem_erase_of_ne hne).mpr href
  obtain ⟨-, hkept⟩ := inMemory_drop.mp hy
  rw [drop]
  split
  · rename_i hone
    refine List.mem_map.mpr ⟨_, hmem, ?_⟩
    rw [inherit, if_neg]
    exact fun heq => hkept heq hone
  · exact hmem

theorem Sound.drop (h : s.Sound) (href : (.outside e, x) ∈ s.refs) : (s.drop e x).Sound := by
  have hx := h.inMemory href
  have hgone : x ∉ s.destroyed := fun hmem => h.gone x hmem hx
  constructor
  · intro y
    have hall := count_erase (y := y) href
    rw [← h.counted] at hall
    rw [count_drop, snd_refs_drop]
    split
    · rename_i hy
      rw [if_pos hy, hy] at hall
      rw [hy]
      omega
    · rename_i hy
      rw [if_neg hy] at hall
      exact hall
  · intro o z hz
    obtain ⟨hmem, hne⟩ | ⟨rfl, -⟩ := mem_refs_drop hz
    · have hpresent := h.present o z hmem
      cases o with
      | outside e' => trivial
      | object y =>
        refine inMemory_drop.mpr ⟨hpresent, ?_⟩
        rintro rfl hone
        exact hne hone rfl
    · trivial
  · intro y
    rw [made_drop, h.made, inMemory_drop, destroyed_drop]
    split
    · rename_i hone
      rw [List.mem_append, List.mem_singleton]
      constructor
      · rintro (hy | hy)
        · obtain rfl | hne := eq_or_ne y x
          · exact .inr (.inr rfl)
          · exact .inl ⟨hy, fun heq => absurd heq hne⟩
        · exact .inr (.inl hy)
      · rintro (⟨hy, -⟩ | hy | rfl)
        · exact .inl hy
        · exact .inr hy
        · exact .inl hx
    · rename_i hone
      simp only [ne_eq, hone, not_false_eq_true, implies_true, and_true]
  · intro y hy hmem
    obtain ⟨hmem, hne⟩ := inMemory_drop.mp hmem
    rw [destroyed_drop] at hy
    split at hy
    · rename_i hone
      obtain hy | hy := List.mem_append.mp hy
      · exact h.gone y hy hmem
      · exact hne (List.mem_singleton.mp hy) hone
    · exact h.gone y hy hmem
  · rw [destroyed_drop]
    split
    · rw [List.nodup_append]
      refine ⟨h.once, List.nodup_singleton x, ?_⟩
      rintro y hy z hz rfl
      rw [List.mem_singleton] at hz
      subst hz
      exact hgone hy
    · exact h.once

end Rules

end Store

end Counted
