import Gempba.Library.Forest
import Mathlib.Data.Fintype.Card
import Mathlib.Data.List.Count

/-!
# The process tree

Nodes live in one vector that never moves, so a pointer is an index into it.
`Represents` reads the links of a tree as ordered lists of children; every
operation that does not throw is simulated by one on these lists.
-/

namespace Gempba

set_option autoImplicit false

structure TreeNode (n : ℕ) where
  parent : Option (Fin n)
  leftSibling : Option (Fin n)
  rightSibling : Option (Fin n)
  next : Option (Fin n)
  last : Option (Fin n)
  childrenCount : ℤ
  deriving DecidableEq, Repr

/-- `invalidAccess` and `endless` stand for an access outside the vector or through a null
pointer, and for a walk over the siblings that does not end. -/
inductive TreeError where
  | outOfBounds | alreadyAssigned | nothingToPop | notAssigned | invalidAccess | endless
  deriving DecidableEq, Repr

abbrev Tree (n : ℕ) := Fin n → TreeNode n

namespace Tree

variable {n : ℕ}

def make (n : ℕ) : Tree n := fun _ => ⟨none, none, none, none, none, 0⟩

def modify (i : Fin n) (f : TreeNode n → TreeNode n) (t : Tree n) : Tree n :=
  Function.update t i (f (t i))

def isAssigned (i : Fin n) (t : Tree n) : Bool := (t i).parent.isSome

def hasNext (i : Fin n) (t : Tree n) : Bool := (t i).next.isSome

/-- Follows the right siblings to the last one; `none` when `fuel` nodes are not enough. -/
def walkToTail : ℕ → Fin n → Tree n → Option (Fin n)
  | 0, _, _ => none
  | fuel + 1, i, t =>
    match (t i).rightSibling with
    | none => some i
    | some j => walkToTail fuel j t

/-- `add_next` once the index has been checked. -/
def link (p c : Fin n) (t : Tree n) : Except TreeError (Tree n) :=
  let t := t.modify c fun v => { v with parent := some p }
  let finish (t : Tree n) : Tree n := t.modify p fun v =>
    { v with last := some c, childrenCount := v.childrenCount + 1 }
  if (t p).childrenCount = 0 then .ok (finish (t.modify p fun v => { v with next := some c }))
  else
    match (t p).next with
    | none => .error .invalidAccess
    | some first =>
      match walkToTail n first t with
      | none => .error .endless
      | some tail =>
        let t := t.modify c fun v => { v with leftSibling := some tail }
        .ok (finish (t.modify tail fun v => { v with rightSibling := some c }))

def addNext (p : Fin n) (index : ℤ) (t : Tree n) : Except TreeError (Tree n) :=
  if n ≤ index then .error .outOfBounds
  else if h : 0 ≤ index ∧ index < n then
    let c : Fin n := ⟨index.toNat, by omega⟩
    if t.isAssigned c then .error .alreadyAssigned else t.link p c
  -- a negative index is not tested and reads outside the vector
  else .error .invalidAccess

def popFront (p : Fin n) (t : Tree n) : Except TreeError (Tree n) :=
  match (t p).next with
  | none => .error .nothingToPop
  | some first =>
    let t :=
      match (t first).rightSibling with
      | some second =>
        let t := t.modify p fun v => { v with next := some second }
        let t := t.modify second fun v => { v with leftSibling := none }
        t.modify first fun v =>
          { v with parent := none, leftSibling := none, rightSibling := none }
      | none =>
        let t := t.modify first fun v => { v with parent := none }
        t.modify p fun v => { v with next := none, last := none }
    .ok (t.modify p fun v => { v with childrenCount := v.childrenCount - 1 })

def release (i : Fin n) (t : Tree n) : Except TreeError (Tree n) :=
  match (t i).parent with
  | none => .error .notAssigned
  | some p =>
    match (t i).leftSibling, (t i).rightSibling with
    | some l, some r =>
      let t := t.modify l fun v => { v with rightSibling := some r }
      let t := t.modify r fun v => { v with leftSibling := some l }
      let t := t.modify p fun v => { v with childrenCount := v.childrenCount - 1 }
      .ok (t.modify i fun v =>
        { v with parent := none, rightSibling := none, leftSibling := none })
    | some l, none =>
      let t := t.modify l fun v => { v with rightSibling := none }
      let t := t.modify p fun v =>
        { v with last := some l, childrenCount := v.childrenCount - 1 }
      .ok (t.modify i fun v => { v with parent := none, leftSibling := none })
    | none, _ => t.popFront p

/-- The iteration from `begin()` to `end()`. -/
def walkChildren : ℕ → Option (Fin n) → Tree n → Option (List (Fin n))
  | _, none, _ => some []
  | 0, some _, _ => none
  | fuel + 1, some i, t => (walkChildren fuel (t i).rightSibling t).map (i :: ·)

def childrenOf (p : Fin n) (t : Tree n) : Option (List (Fin n)) := walkChildren n (t p).next t

/-- The text of a node and of those below it, on at most `fuel` levels. -/
def printNode (t : Tree n) : (fuel : ℕ) → Fin n → (indent : ℕ) → Option String
  | 0, _, _ => none
  | fuel + 1, i, indent => do
    let children ← t.childrenOf i
    let below ← children.mapM fun c => printNode t fuel c (indent + 1)
    let line := "".pushn ' ' (indent * 2) ++ "- Node " ++ toString i.val ++ "\n"
    return line ++ String.join below

def toString (t : Tree n) : Option String := do
  let roots := (List.finRange n).filter fun i => (t i).parent = none
  let texts ← roots.mapM fun i => printNode t n i 0
  return String.join texts

/-- The links of the tree are those of an ordered family of children. -/
structure Represents (t : Tree n) (F : Forest.Ordered (Fin n)) : Prop where
  parent : ∀ c, (t c).parent = F.parent c
  next : ∀ p, (t p).next = (F.children p).head?
  last : ∀ p, (t p).last = (F.children p).getLast?
  count : ∀ p, (t p).childrenCount = (F.children p).length
  siblings : ∀ p xs c ys, F.children p = xs ++ c :: ys →
    (t c).leftSibling = xs.getLast? ∧ (t c).rightSibling = ys.head?
  orphan : ∀ c, F.parent c = none → (t c).leftSibling = none ∧ (t c).rightSibling = none

/-! ## One field of a modified tree -/

section Modify

variable (i j : Fin n) (f : TreeNode n → TreeNode n) (t : Tree n)

theorem modify_apply : t.modify i f j = if j = i then f (t j) else t j := by
  unfold modify
  by_cases h : j = i
  · subst h
    simp
  · simp [h]

@[simp] theorem modify_parent :
    (t.modify i f j).parent = if j = i then (f (t j)).parent else (t j).parent := by
  rw [modify_apply, apply_ite TreeNode.parent]

@[simp] theorem modify_leftSibling :
    (t.modify i f j).leftSibling = if j = i then (f (t j)).leftSibling else (t j).leftSibling := by
  rw [modify_apply, apply_ite TreeNode.leftSibling]

@[simp] theorem modify_rightSibling :
    (t.modify i f j).rightSibling =
      if j = i then (f (t j)).rightSibling else (t j).rightSibling := by
  rw [modify_apply, apply_ite TreeNode.rightSibling]

@[simp] theorem modify_next :
    (t.modify i f j).next = if j = i then (f (t j)).next else (t j).next := by
  rw [modify_apply, apply_ite TreeNode.next]

@[simp] theorem modify_last :
    (t.modify i f j).last = if j = i then (f (t j)).last else (t j).last := by
  rw [modify_apply, apply_ite TreeNode.last]

@[simp] theorem modify_childrenCount :
    (t.modify i f j).childrenCount =
      if j = i then (f (t j)).childrenCount else (t j).childrenCount := by
  rw [modify_apply, apply_ite TreeNode.childrenCount]

end Modify

theorem represents_make : (make n).Represents .empty where
  parent _ := rfl
  next _ := rfl
  last _ := rfl
  count _ := rfl
  siblings p xs c ys h := by simp [Forest.Ordered.empty] at h
  orphan _ _ := ⟨rfl, rfl⟩

namespace Represents

variable {t t' : Tree n} {F : Forest.Ordered (Fin n)}

theorem getLast?_split {α : Type} (xs : List α) (d : α) (us : List α) (u : α) :
    (xs ++ d :: (us ++ [u])).getLast? = some u := by
  rw [← List.cons_append, ← List.append_assoc, List.getLast?_concat]

theorem length_le (p : Fin n) : (F.children p).length ≤ n := by
  simpa using (F.nodup p).length_le_card

theorem walkToTail_eq (h : t.Represents F) {p : Fin n} {fuel : ℕ} {xs ys : List (Fin n)}
    {i : Fin n} (hsplit : F.children p = xs ++ i :: ys) (hfuel : ys.length < fuel) :
    walkToTail fuel i t = (i :: ys).getLast? := by
  induction fuel generalizing xs i ys with
  | zero => omega
  | succ fuel ih =>
    rw [walkToTail, (h.siblings p xs i ys hsplit).2]
    cases ys with
    | nil => rfl
    | cons j ys =>
      have hnext : F.children p = (xs ++ [i]) ++ j :: ys := by simp [hsplit]
      simpa using ih hnext (by simpa using hfuel)

theorem walkChildren_eq (h : t.Represents F) {p : Fin n} {fuel : ℕ} {xs ys : List (Fin n)}
    (hsplit : F.children p = xs ++ ys) (hfuel : ys.length ≤ fuel) :
    walkChildren fuel ys.head? t = some ys := by
  induction fuel generalizing xs ys with
  | zero =>
    rw [List.length_eq_zero_iff.mp (Nat.le_zero.mp hfuel)]
    rfl
  | succ fuel ih =>
    cases ys with
    | nil => rfl
    | cons i ys =>
      have hnext : F.children p = (xs ++ [i]) ++ ys := by simp [hsplit]
      rw [List.head?_cons, walkChildren, (h.siblings p xs i ys hsplit).2,
        ih hnext (by simpa using hfuel)]
      rfl

theorem childrenOf_eq (h : t.Represents F) (p : Fin n) : t.childrenOf p = some (F.children p) := by
  rw [childrenOf, h.next]
  have hsplit : F.children p = [] ++ F.children p := rfl
  exact h.walkChildren_eq hsplit (length_le p)

theorem isAssigned_iff (h : t.Represents F) (c : Fin n) :
    t.isAssigned c = true ↔ F.parent c ≠ none := by
  rw [isAssigned, h.parent, Option.isSome_iff_ne_none]

theorem hasNext_iff (h : t.Represents F) (p : Fin n) :
    t.hasNext p = true ↔ F.children p ≠ [] := by
  rw [hasNext, h.next, List.isSome_head?]

/-- What a tree must look like when `c` has become the last child of `p`. -/
theorem attach (h : t.Represents F) {p c : Fin n} (hc : F.parent c = none)
    (hparent : ∀ d, (t' d).parent = if d = c then some p else (t d).parent)
    (hnext : ∀ q, (t' q).next = if q = p then (F.children p ++ [c]).head? else (t q).next)
    (hlast : ∀ q, (t' q).last = if q = p then some c else (t q).last)
    (hcount : ∀ q, (t' q).childrenCount =
      if q = p then (t q).childrenCount + 1 else (t q).childrenCount)
    (hleft : ∀ d, (t' d).leftSibling =
      if d = c then (F.children p).getLast? else (t d).leftSibling)
    (hright : ∀ d, (t' d).rightSibling =
      if (F.children p).getLast? = some d then some c else (t d).rightSibling) :
    t'.Represents (F.attach p c hc) := by
  have hnew : ∀ q, c ∉ F.children q := fun q => by simp [F.mem_children, hc]
  refine ⟨fun d => ?_, fun q => ?_, fun q => ?_, fun q => ?_, fun q xs d ys hsplit => ?_,
    fun d hd => ?_⟩
  · rw [hparent, h.parent]
    simp [Forest.Ordered.attach, Function.update_apply]
  · rw [hnext, h.next]
    simp only [Forest.Ordered.attach, Function.update_apply]
    split <;> rfl
  · rw [hlast, h.last]
    simp only [Forest.Ordered.attach, Function.update_apply]
    split <;> simp
  · rw [hcount, h.count]
    simp only [Forest.Ordered.attach, Function.update_apply]
    split
    · rename_i hq
      subst hq
      simp
    · rfl
  · by_cases hq : q = p
    · subst hq
      simp only [Forest.Ordered.attach, Function.update_self] at hsplit
      obtain rfl | ⟨zs, z, rfl⟩ := List.eq_nil_or_concat' ys
      · -- `d` is the new child
        obtain ⟨rfl, hd⟩ := List.append_inj' hsplit rfl
        obtain rfl : c = d := by simpa using hd
        have hne : (F.children q).getLast? ≠ some c := fun he =>
          hnew q (List.mem_of_getLast? he)
        rw [hleft, hright, if_pos rfl, if_neg hne, (h.orphan c hc).2]
        exact ⟨rfl, rfl⟩
      · have hold : F.children q = xs ++ d :: zs ∧ c = z := by
          rw [← List.cons_append, ← List.append_assoc] at hsplit
          exact ⟨(List.append_inj' hsplit rfl).1, by simpa using (List.append_inj' hsplit rfl).2⟩
        obtain ⟨hold, rfl⟩ := hold
        have hdc : d ≠ c := fun he => hnew q (by rw [hold, he]; simp)
        have hsib := h.siblings q xs d zs hold
        rw [hleft, hright, if_neg hdc, hsib.1, hsib.2]
        refine ⟨rfl, ?_⟩
        obtain rfl | ⟨us, u, rfl⟩ := List.eq_nil_or_concat' zs
        · rw [hold]
          simp
        · have hlast : (F.children q).getLast? = some u := by
            rw [hold, getLast?_split]
          have hdu : u ≠ d := by
            rintro rfl
            have hnodup := F.nodup q
            rw [hold] at hnodup
            exact (List.nodup_cons.mp (List.nodup_append.mp hnodup).2.1).1 (by simp)
          rw [hlast, if_neg fun he => hdu (Option.some.inj he)]
          cases us <;> rfl
    · simp only [Forest.Ordered.attach, Function.update_of_ne hq] at hsplit
      have hmem : d ∈ F.children q := by simp [hsplit]
      have hdc : d ≠ c := fun he => hnew q (he ▸ hmem)
      have hdp : (F.children p).getLast? ≠ some d := fun he => by
        have hp := (F.mem_children p d).mp (List.mem_of_getLast? he)
        have hq' := (F.mem_children q d).mp hmem
        exact hq (Option.some.inj (hq'.symm.trans hp))
      rw [hleft, hright, if_neg hdc, if_neg hdp]
      exact h.siblings q xs d ys hsplit
  · have hdc : d ≠ c := by
      rintro rfl
      simp [Forest.Ordered.attach] at hd
    have hold : F.parent d = none := by
      simpa [Forest.Ordered.attach, Function.update_of_ne hdc] using hd
    have hdp : (F.children p).getLast? ≠ some d := fun he => by
      have hp := (F.mem_children p d).mp (List.mem_of_getLast? he)
      rw [hold] at hp
      cases hp
    rw [hleft, hright, if_neg hdc, if_neg hdp]
    exact h.orphan d hold

/-- What a tree must look like when `c` has left the list of `p`. -/
theorem detach (h : t.Represents F) {p c : Fin n} {xs ys : List (Fin n)}
    (hsplit : F.children p = xs ++ c :: ys)
    (hparent : ∀ d, (t' d).parent = if d = c then none else (t d).parent)
    (hnext : ∀ q, (t' q).next = if q = p then (xs ++ ys).head? else (t q).next)
    (hlast : ∀ q, (t' q).last = if q = p then (xs ++ ys).getLast? else (t q).last)
    (hcount : ∀ q, (t' q).childrenCount =
      if q = p then (t q).childrenCount - 1 else (t q).childrenCount)
    (hleft : ∀ d, (t' d).leftSibling = if d = c then none else
      if ys.head? = some d then xs.getLast? else (t d).leftSibling)
    (hright : ∀ d, (t' d).rightSibling = if d = c then none else
      if xs.getLast? = some d then ys.head? else (t d).rightSibling) :
    t'.Represents (F.detach c) := by
  have hc : F.parent c = some p := (F.mem_children p c).mp (by simp [hsplit])
  have hnodup := F.nodup p
  rw [hsplit] at hnodup
  have hcx : c ∉ xs := fun hmem =>
    (List.nodup_append.mp hnodup).2.2 c hmem c (by simp) rfl
  have hcy : c ∉ ys := (List.nodup_cons.mp (List.nodup_append.mp hnodup).2.1).1
  have hp : (F.detach c).children p = xs ++ ys := by
    simp only [Forest.Ordered.detach]
    rw [hsplit, List.erase_append_right _ hcx, List.erase_cons_head]
  have hq : ∀ q, q ≠ p → (F.detach c).children q = F.children q := fun q hqp =>
    F.detach_children_of_ne fun he => hqp (Option.some.inj (hc.symm.trans he)).symm
  -- The two neighbours of `c` are children of `p`.
  have hfirst : ∀ d, ys.head? = some d → F.parent d = some p := fun d hd =>
    (F.mem_children p d).mp (by simp [hsplit, List.mem_of_head? hd])
  have hfinal : ∀ d, xs.getLast? = some d → F.parent d = some p := fun d hd =>
    (F.mem_children p d).mp (by simp [hsplit, List.mem_of_getLast? hd])
  refine ⟨fun d => ?_, fun q => ?_, fun q => ?_, fun q => ?_, fun q us d vs hd => ?_,
    fun d hd => ?_⟩
  · rw [hparent, h.parent]
    simp [Forest.Ordered.detach, Function.update_apply]
  · by_cases hqp : q = p
    · subst hqp
      rw [hnext, if_pos rfl, hp]
    · rw [hnext, if_neg hqp, hq q hqp, h.next]
  · by_cases hqp : q = p
    · subst hqp
      rw [hlast, if_pos rfl, hp]
    · rw [hlast, if_neg hqp, hq q hqp, h.last]
  · by_cases hqp : q = p
    · subst hqp
      rw [hcount, if_pos rfl, hp, h.count, hsplit]
      simp
      omega
    · rw [hcount, if_neg hqp, hq q hqp, h.count]
  · have hdc : d ≠ c := by
      rintro rfl
      have hmem : d ∈ (F.detach d).children q := by simp [hd]
      rw [(F.detach d).mem_children] at hmem
      simp [Forest.Ordered.detach] at hmem
    rw [hleft, hright, if_neg hdc, if_neg hdc]
    by_cases hqp : q = p
    · subst hqp
      rw [hp] at hd
      obtain ⟨as, rfl, has⟩ | ⟨as, rfl, has⟩ := List.append_eq_append_iff.mp hd
      · -- `d` is to the right of `c`
        have hold : F.children q = (xs ++ c :: as) ++ d :: vs := by simp [hsplit, has]
        have hsib := h.siblings q _ d vs hold
        have hdx : xs.getLast? ≠ some d := fun he => by
          have hnd := F.nodup q
          rw [hold] at hnd
          exact (List.nodup_append.mp hnd).2.2 d
            (List.mem_append_left _ (List.mem_of_getLast? he)) d (by simp) rfl
        rw [if_neg hdx]
        refine ⟨?_, hsib.2⟩
        obtain rfl | ⟨bs, b, rfl⟩ := List.eq_nil_or_concat' as
        · simp [has]
        · have hdy : ys.head? ≠ some d := fun he => by
            have hnd := F.nodup q
            rw [hold] at hnd
            have hmem : d ∈ bs ++ [b] := by
              rw [has] at he
              cases bs with
              | nil => simpa using he.symm
              | cons y bs => simp at he; simp [he]
            exact (List.nodup_append.mp hnd).2.2 d (by simp [hmem]) d (by simp) rfl
          rw [if_neg hdy, hsib.1, getLast?_split]
          simp
      · -- `d` is to the left of `c`
        cases as with
        | nil =>
          have hys : ys = d :: vs := by simpa using has.symm
          subst hys
          have hold : F.children q = (us ++ [c]) ++ d :: vs := by simpa using hsplit
          have hsib := h.siblings q _ d vs hold
          have hdx : us.getLast? ≠ some d := fun he => by
            have hnd := F.nodup q
            rw [hold] at hnd
            exact (List.nodup_append.mp hnd).2.2 d
              (List.mem_append_left _ (List.mem_of_getLast? he)) d (by simp) rfl
          simpa [hdx] using hsib.2
        | cons a as =>
          obtain ⟨rfl, rfl⟩ : d = a ∧ vs = as ++ ys := by simpa using has
          have hold : F.children q = us ++ d :: (as ++ c :: ys) := by simp [hsplit]
          have hsib := h.siblings q _ d _ hold
          have hnd := F.nodup q
          rw [hold] at hnd
          have hdr := (List.nodup_cons.mp (List.nodup_append.mp hnd).2.1).1
          have hdy : ys.head? ≠ some d := fun he =>
            hdr (by simp [List.mem_of_head? he])
          rw [if_neg hdy]
          refine ⟨hsib.1, ?_⟩
          obtain rfl | ⟨bs, b, rfl⟩ := List.eq_nil_or_concat' as
          · simp
          · have hbd : b ≠ d := by
              rintro rfl
              exact hdr (by simp)
            rw [getLast?_split, if_neg fun he => hbd (Option.some.inj he), hsib.2]
            cases bs <;> rfl
    · rw [hq q hqp] at hd
      have hdq : F.parent d = some q := (F.mem_children q d).mp (by simp [hd])
      have hdp : F.parent d ≠ some p := fun he => hqp (Option.some.inj (hdq.symm.trans he))
      rw [if_neg fun he => hdp (hfirst d he), if_neg fun he => hdp (hfinal d he)]
      exact h.siblings q us d vs hd
  · rw [hleft, hright]
    by_cases hdc : d = c
    · rw [if_pos hdc, if_pos hdc]
      exact ⟨rfl, rfl⟩
    · have hold : F.parent d = none := by
        simpa [Forest.Ordered.detach, Function.update_of_ne hdc] using hd
      have hdp : F.parent d ≠ some p := by simp [hold]
      rw [if_neg hdc, if_neg hdc, if_neg fun he => hdp (hfirst d he),
        if_neg fun he => hdp (hfinal d he)]
      exact h.orphan d hold

theorem walkToTail_congr (hright : ∀ i, (t' i).rightSibling = (t i).rightSibling) (fuel : ℕ)
    (i : Fin n) : walkToTail fuel i t' = walkToTail fuel i t := by
  induction fuel generalizing i with
  | zero => rfl
  | succ fuel ih =>
    rw [walkToTail, walkToTail, hright]
    cases (t i).rightSibling with
    | none => rfl
    | some j => exact ih j

/-- An orphan can be linked below any node, itself included. -/
theorem link_eq (h : t.Represents F) (p : Fin n) {c : Fin n} (hc : F.parent c = none) :
    ∃ t', t.link p c = .ok t' ∧ t'.Represents (F.attach p c hc) := by
  rcases hl : F.children p with _ | ⟨first, rest⟩
  · have hcount : (t p).childrenCount = 0 := by simp [h.count, hl]
    refine ⟨_, by simp [link, hcount]; rfl, ?_⟩
    refine h.attach hc (fun d => ?_) (fun q => ?_) (fun q => ?_) (fun q => ?_) (fun d => ?_)
      (fun d => ?_)
    · simp
    · simp [hl]
    · simp
    · simp
    · simp only [modify_leftSibling, ite_self, hl]
      split
      · rename_i hd
        rw [hd, (h.orphan c hc).1]
        rfl
      · rfl
    · simp [hl]
  · have hcount : (t p).childrenCount ≠ 0 := by
      rw [h.count, hl]
      simp
      omega
    have hnext : (t p).next = some first := by simp [h.next, hl]
    obtain ⟨tail, htail⟩ : ∃ tail, (F.children p).getLast? = some tail := by
      rw [hl]
      exact ⟨_, List.getLast?_eq_some_getLast (List.cons_ne_nil first rest)⟩
    have hfuel : rest.length < n := by
      have hle := length_le (F := F) p
      rw [hl, List.length_cons] at hle
      omega
    have hwalk : walkToTail n first (t.modify c fun v => { v with parent := some p }) =
        some tail := by
      rw [walkToTail_congr (t := t) (fun i => by simp), ← htail, hl]
      have hsplit : F.children p = [] ++ first :: rest := hl
      exact h.walkToTail_eq hsplit hfuel
    refine ⟨_, by simp [link, hcount, hnext, hwalk]; rfl, ?_⟩
    refine h.attach hc (fun d => ?_) (fun q => ?_) (fun q => ?_) (fun q => ?_) (fun d => ?_)
      (fun d => ?_)
    · simp
    · simp only [modify_next, ite_self, hl, List.cons_append, List.head?_cons]
      split
      · rename_i hq
        rw [hq, hnext]
      · rfl
    · simp
    · simp
    · simp [htail]
    · simp [htail, eq_comm]

theorem addNext_eq (h : t.Represents F) (p : Fin n) {c : Fin n} (hc : F.parent c = none) :
    ∃ t', t.addNext p c = .ok t' ∧ t'.Represents (F.attach p c hc) := by
  obtain ⟨t', hlink, ht'⟩ := h.link_eq p hc
  refine ⟨t', ?_, ht'⟩
  have hassigned : t.isAssigned c = false := by
    rw [isAssigned, h.parent, hc]
    rfl
  have hlt : ((c : ℕ) : ℤ) < n := by exact_mod_cast c.isLt
  rw [addNext, if_neg (by omega), dif_pos ⟨by omega, hlt⟩]
  simp only [Int.toNat_natCast, Fin.eta, hassigned, Bool.false_eq_true, if_false]
  exact hlink

theorem popFront_eq (h : t.Represents F) {p c : Fin n} {ys : List (Fin n)}
    (hl : F.children p = c :: ys) :
    ∃ t', t.popFront p = .ok t' ∧ t'.Represents (F.detach c) := by
  have hnext : (t p).next = some c := by simp [h.next, hl]
  obtain ⟨hleft, hright⟩ := h.siblings p [] c ys hl
  have hnodup := F.nodup p
  rw [hl] at hnodup
  have hsplit : F.children p = [] ++ c :: ys := hl
  cases ys with
  | nil =>
    refine ⟨_, by simp only [popFront, hnext, hright, List.head?_nil]; rfl, ?_⟩
    refine h.detach hsplit (fun d => ?_) (fun q => ?_) (fun q => ?_) (fun q => ?_)
      (fun d => ?_) (fun d => ?_)
    · simp
    · simp
    · simp
    · simp
    · simp only [modify_leftSibling, ite_self, List.head?_nil, reduceCtorEq, if_false]
      split
      · rename_i hd
        rw [hd, hleft]
        rfl
      · rfl
    · simp only [modify_rightSibling, ite_self, List.getLast?_nil, reduceCtorEq, if_false]
      split
      · rename_i hd
        rw [hd, hright]
        rfl
      · rfl
  | cons second ys =>
    have hne : second ≠ c := by
      rintro rfl
      simp at hnodup
    refine ⟨_, by simp only [popFront, hnext, hright, List.head?_cons]; rfl, ?_⟩
    refine h.detach hsplit (fun d => ?_) (fun q => ?_) (fun q => ?_) (fun q => ?_)
      (fun d => ?_) (fun d => ?_)
    · simp
    · simp
    · simp only [modify_last, ite_self, List.nil_append]
      split
      · rename_i hq
        rw [hq, h.last, hl, List.getLast?_cons_cons]
      · rfl
    · simp
    · simp [eq_comm]
    · simp

theorem release_eq (h : t.Represents F) {p c : Fin n} (hp : F.parent c = some p) :
    ∃ t', t.release c = .ok t' ∧ t'.Represents (F.detach c) := by
  have hparent : (t c).parent = some p := by rw [h.parent, hp]
  obtain ⟨xs, ys, hl⟩ := List.append_of_mem ((F.mem_children p c).mpr hp)
  obtain ⟨hleft, hright⟩ := h.siblings p xs c ys hl
  have hnodup := F.nodup p
  rw [hl] at hnodup
  obtain rfl | ⟨as, a, rfl⟩ := List.eq_nil_or_concat' xs
  · -- the first one, or the only one
    obtain ⟨t', hpop, ht'⟩ := h.popFront_eq hl
    exact ⟨t', by simp [release, hparent, hleft, hpop], ht'⟩
  · rw [List.getLast?_concat] at hleft
    have hac : a ≠ c := by
      rintro rfl
      exact (List.nodup_append.mp hnodup).2.2 a (by simp) a (by simp) rfl
    cases ys with
    | nil =>
      refine ⟨_, by simp only [release, hparent, hleft, hright, List.head?_nil]; rfl, ?_⟩
      refine h.detach hl (fun d => ?_) (fun q => ?_) (fun q => ?_) (fun q => ?_)
        (fun d => ?_) (fun d => ?_)
      · simp
      · simp only [modify_next, ite_self, List.append_nil]
        split
        · rename_i hq
          rw [hq, h.next, hl]
          cases as <;> rfl
        · rfl
      · simp
      · simp
      · simp
      · simp only [modify_rightSibling, ite_self, List.getLast?_concat, Option.some.injEq,
          List.head?_nil]
        by_cases hd : d = c
        · rw [if_pos hd, hd, if_neg (Ne.symm hac), hright]
          rfl
        · simp [hd, eq_comm]
    | cons b ys =>
      have hbc : b ≠ c := by
        rintro rfl
        exact (List.nodup_cons.mp (List.nodup_append.mp hnodup).2.1).1 (by simp)
      refine ⟨_, by simp only [release, hparent, hleft, hright, List.head?_cons]; rfl, ?_⟩
      refine h.detach hl (fun d => ?_) (fun q => ?_) (fun q => ?_) (fun q => ?_)
        (fun d => ?_) (fun d => ?_)
      · simp
      · simp only [modify_next, ite_self]
        split
        · rename_i hq
          rw [hq, h.next, hl]
          cases as <;> rfl
        · rfl
      · simp only [modify_last, ite_self]
        split
        · rename_i hq
          rw [hq, h.last, hl]
          simp
        · rfl
      · simp
      · simp [eq_comm]
      · simp [eq_comm]

theorem mirror (h : t.Represents F) (c d : Fin n) :
    (t c).rightSibling = some d ↔ (t d).leftSibling = some c := by
  constructor
  · intro hright
    cases hp : F.parent c with
    | none =>
      rw [(h.orphan c hp).2] at hright
      cases hright
    | some p =>
      obtain ⟨xs, ys, hl⟩ := List.append_of_mem ((F.mem_children p c).mpr hp)
      rw [(h.siblings p xs c ys hl).2] at hright
      obtain ⟨zs, rfl⟩ := List.head?_eq_some_iff.mp hright
      have hnext : F.children p = (xs ++ [c]) ++ d :: zs := by simp [hl]
      rw [(h.siblings p _ d zs hnext).1, List.getLast?_concat]
  · intro hleft
    cases hp : F.parent d with
    | none =>
      rw [(h.orphan d hp).1] at hleft
      cases hleft
    | some p =>
      obtain ⟨xs, ys, hl⟩ := List.append_of_mem ((F.mem_children p d).mpr hp)
      rw [(h.siblings p xs d ys hl).1] at hleft
      obtain ⟨zs, rfl⟩ := List.getLast?_eq_some_iff.mp hleft
      have hprevious : F.children p = zs ++ c :: (d :: ys) := by simp [hl]
      rw [(h.siblings p zs c _ hprevious).2, List.head?_cons]

end Represents

end Tree

end Gempba
