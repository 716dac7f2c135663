import Gempba.Utils.Tree

/-!
# Calls on the process tree

The operations statement by statement, with the tree as it stands where a call
throws. A run is any list of calls whose exceptions the caller swallows; every
node remembers when it was last attached.
-/

namespace Gempba

set_option autoImplicit false

variable {n : ℕ}

abbrev TreeM (n : ℕ) := EStateM TreeError (Tree n)

namespace TreeM

variable {p c i : Fin n} {index : ℤ} {t s t' : Tree n} {F : Forest.Ordered (Fin n)}

def modify (i : Fin n) (f : TreeNode n → TreeNode n) : TreeM n Unit :=
  fun t => .ok () (t.modify i f)

def node (i : Fin n) : TreeM n (TreeNode n) := fun t => .ok (t i) t

/-- A pointer that is followed, or tested and found null. -/
def access (e : TreeError) : Option (Fin n) → TreeM n (Fin n)
  | none => throw e
  | some i => pure i

def tail (first : Fin n) : TreeM n (Fin n) := fun t => access .endless (t.walkToTail n first) t

/-- `add_next` once the index has been checked. -/
def link (p c : Fin n) : TreeM n Unit := do
  modify c fun v => { v with parent := some p }
  if (← node p).childrenCount = 0 then
    modify p fun v => { v with next := some c }
  else
    let first ← access .invalidAccess (← node p).next
    let last ← tail first
    modify c fun v => { v with leftSibling := some last }
    modify last fun v => { v with rightSibling := some c }
  modify p fun v => { v with last := some c, childrenCount := v.childrenCount + 1 }

theorem toNat_lt_of_inside {n : ℕ} {index : ℤ} (h : 0 ≤ index ∧ index < n) : index.toNat < n := by
  omega

/-- `add_next` with the size of the vector that `m_tree` refers to. -/
def addNextWithin (size : ℕ) (p : Fin n) (index : ℤ) : TreeM n Unit :=
  if size ≤ index then throw .outOfBounds
  else if h : 0 ≤ index ∧ index < n then do
    let c : Fin n := ⟨index.toNat, toNat_lt_of_inside h⟩
    if (← node c).parent.isSome then throw .alreadyAssigned
    link p c
  -- a negative index is not tested and reads outside the vector
  else throw .invalidAccess

def addNext (p : Fin n) (index : ℤ) : TreeM n Unit := addNextWithin n p index

def popFront (p : Fin n) : TreeM n Unit := do
  let first ← access .nothingToPop (← node p).next
  match (← node first).rightSibling with
  | some second =>
    modify p fun v => { v with next := some second }
    modify second fun v => { v with leftSibling := none }
    modify first fun v => { v with parent := none, leftSibling := none, rightSibling := none }
  | none =>
    modify first fun v => { v with parent := none }
    modify p fun v => { v with next := none, last := none }
  modify p fun v => { v with childrenCount := v.childrenCount - 1 }

def release (i : Fin n) : TreeM n Unit := do
  let p ← access .notAssigned (← node i).parent
  match (← node i).leftSibling, (← node i).rightSibling with
  | some l, some r =>
    modify l fun v => { v with rightSibling := some r }
    modify r fun v => { v with leftSibling := some l }
    modify p fun v => { v with childrenCount := v.childrenCount - 1 }
    modify i fun v => { v with parent := none, rightSibling := none, leftSibling := none }
  | some l, none =>
    modify l fun v => { v with rightSibling := none }
    modify p fun v => { v with last := some l, childrenCount := v.childrenCount - 1 }
    modify i fun v => { v with parent := none, leftSibling := none }
  | none, _ => popFront p

/-- The loop of `clear`. -/
def clear (p : Fin n) : ℕ → TreeM n Unit
  | 0 => throw .endless
  | fuel + 1 => do
    if (← node p).next.isSome then
      popFront p
      clear p fuel

theorem bind_eq {α β : Type} {m : TreeM n α} {f : α → TreeM n β} {a : α} (h : m t = .ok a s) :
    (m >>= f) t = f a s := by
  change EStateM.bind m f t = _
  rw [EStateM.bind, h]

theorem bind_error {α β : Type} {m : TreeM n α} {f : α → TreeM n β} {e : TreeError}
    (h : m t = .error e s) : (m >>= f) t = .error e s := by
  change EStateM.bind m f t = _
  rw [EStateM.bind, h]

theorem access_some {e : TreeError} {o : Option (Fin n)} (h : o = some i) :
    access e o t = .ok i t := by
  rw [h]
  rfl

theorem access_none {e : TreeError} {o : Option (Fin n)} (h : o = none) :
    access e o t = .error e t := by
  rw [h]
  rfl

theorem tail_some {first last : Fin n} (h : t.walkToTail n first = some last) :
    tail first t = .ok last t := access_some h

/-! ## A call that does not throw -/

theorem link_ok (h : t.link p c = .ok t') : link p c t = .ok () t' := by
  simp only [Tree.link] at h
  refine (bind_eq rfl).trans ((bind_eq rfl).trans ?_)
  split at h
  · rename_i hcount
    obtain rfl := Except.ok.inj h
    rw [if_pos hcount]
    rfl
  · rename_i hcount
    rw [if_neg hcount]
    split at h
    · cases h
    · rename_i first hnext
      split at h
      · cases h
      · rename_i last hwalk
        obtain rfl := Except.ok.inj h
        exact (bind_eq rfl).trans ((bind_eq (access_some hnext)).trans
          ((bind_eq (tail_some hwalk)).trans rfl))

theorem popFront_ok (h : t.popFront p = .ok t') : popFront p t = .ok () t' := by
  rw [Tree.popFront] at h
  split at h
  · cases h
  · rename_i first hnext
    obtain rfl := Except.ok.inj h
    refine (bind_eq rfl).trans ((bind_eq (access_some hnext)).trans ((bind_eq rfl).trans ?_))
    cases (t first).rightSibling with
    | none => rfl
    | some second => rfl

theorem release_ok (h : t.release i = .ok t') : release i t = .ok () t' := by
  rw [Tree.release] at h
  split at h
  · cases h
  · rename_i p hparent
    refine (bind_eq rfl).trans ((bind_eq (access_some hparent)).trans
      ((bind_eq rfl).trans ((bind_eq rfl).trans ?_)))
    cases hl : (t i).leftSibling with
    | none =>
      simp only [hl] at h
      exact popFront_ok h
    | some l =>
      cases hr : (t i).rightSibling with
      | none =>
        simp only [hl, hr] at h
        obtain rfl := Except.ok.inj h
        rfl
      | some r =>
        simp only [hl, hr] at h
        obtain rfl := Except.ok.inj h
        rfl

/-! ## The errors of a call -/

/-- Every error of `m` satisfies `P`. -/
def Throws {α : Type} (m : TreeM n α) (P : TreeError → Prop) : Prop :=
  ∀ t e s, m t = .error e s → P e

namespace Throws

variable {α β : Type} {P : TreeError → Prop}

theorem bind {m : TreeM n α} {f : α → TreeM n β} (hm : Throws m P) (hf : ∀ a, Throws (f a) P) :
    Throws (m >>= f) P := by
  intro t e s h
  cases hmt : m t with
  | ok a t' =>
    rw [bind_eq hmt] at h
    exact hf a t' e s h
  | error e' t' =>
    rw [bind_error hmt] at h
    cases h
    exact hm t e s hmt

theorem modify (f : TreeNode n → TreeNode n) : Throws (TreeM.modify i f) P :=
  fun t e s h => by cases h

theorem node : Throws (TreeM.node i) P := fun t e s h => by cases h

theorem access {e : TreeError} (he : P e) (o : Option (Fin n)) : Throws (TreeM.access e o) P := by
  intro t e' s h
  cases o with
  | none =>
    cases h
    exact he
  | some i => cases h

theorem tail (he : P .endless) (first : Fin n) : Throws (TreeM.tail first) P :=
  fun t e s h => access he (t.walkToTail n first) t e s h

/-- Once the index has been checked, nothing but a broken link is left to find. -/
theorem link : Throws (TreeM.link p c) fun e => e = .invalidAccess ∨ e = .endless := by
  refine .bind (.modify _) fun _ => .bind .node fun v => ?_
  split
  · exact .bind (.modify _) fun _ => .modify _
  · refine .bind .node fun v => .bind (.access (Or.inl rfl) _) fun first => ?_
    refine .bind (.tail (Or.inr rfl) first) fun last => ?_
    exact .bind (.modify _) fun _ => .bind (.modify _) fun _ => .modify _

end Throws

/-! ## A call on a tree that represents an ordered family -/

/-- The lists of children lose members at most. -/
def Shrinks (F F' : Forest.Ordered (Fin n)) : Prop :=
  ∀ p, (F'.children p).Sublist (F.children p)

theorem shrinks_detach (F : Forest.Ordered (Fin n)) (c : Fin n) : Shrinks F (F.detach c) :=
  fun _ => List.erase_sublist

theorem link_attaches (ht : t.Represents F) (p : Fin n) (hc : F.parent c = none) :
    ∃ t', link p c t = .ok () t' ∧ t'.Represents (F.attach p c hc) := by
  obtain ⟨t', hlink, ht'⟩ := ht.link_eq p hc
  exact ⟨t', link_ok hlink, ht'⟩

theorem addNextWithin_outOfBounds {size : ℕ} (hindex : size ≤ index) (t : Tree n) :
    addNextWithin size p index t = .error .outOfBounds t := by
  rw [addNextWithin, if_pos hindex]
  rfl

theorem addNextWithin_negative {size : ℕ} (hindex : index < 0) (t : Tree n) :
    addNextWithin size p index t = .error .invalidAccess t := by
  rw [addNextWithin, if_neg (by omega), dif_neg (by omega)]
  rfl

theorem addNext_inside (c : Fin n) : addNext p (c : ℤ) = (do
    if (← node c).parent.isSome then throw .alreadyAssigned
    link p c) := by
  have hlt : ((c : ℕ) : ℤ) < n := by exact_mod_cast c.isLt
  rw [addNext, addNextWithin, if_neg (by omega), dif_pos ⟨by omega, hlt⟩]
  rfl

theorem addNext_assigned (hc : (t c).parent ≠ none) :
    addNext p (c : ℤ) t = .error .alreadyAssigned t := by
  have hsome : (t c).parent.isSome = true := Option.isSome_iff_ne_none.mpr hc
  rw [addNext_inside]
  refine (bind_eq rfl).trans ?_
  rw [if_pos hsome]
  rfl

theorem addNext_orphan (hc : (t c).parent = none) : addNext p (c : ℤ) t = link p c t := by
  have hnone : ¬ (t c).parent.isSome = true := by
    rw [hc]
    exact Bool.false_ne_true
  rw [addNext_inside]
  refine (bind_eq rfl).trans ?_
  rw [if_neg hnone]

theorem popFront_detaches (ht : t.Represents F) {ys : List (Fin n)} (hl : F.children p = c :: ys) :
    ∃ t', popFront p t = .ok () t' ∧ t'.Represents (F.detach c) := by
  obtain ⟨t', hpop, ht'⟩ := ht.popFront_eq hl
  exact ⟨t', popFront_ok hpop, ht'⟩

theorem popFront_empty (ht : t.Represents F) (hl : F.children p = []) :
    popFront p t = .error .nothingToPop t := by
  have hnext : (t p).next = none := by
    rw [ht.next, hl]
    rfl
  exact (bind_eq rfl).trans (bind_error (access_none hnext))

theorem release_detaches (ht : t.Represents F) (hp : F.parent c = some p) :
    ∃ t', release c t = .ok () t' ∧ t'.Represents (F.detach c) := by
  obtain ⟨t', hrelease, ht'⟩ := ht.release_eq hp
  exact ⟨t', release_ok hrelease, ht'⟩

theorem release_orphan (ht : t.Represents F) (hp : F.parent c = none) :
    release c t = .error .notAssigned t := by
  have hparent : (t c).parent = none := by rw [ht.parent, hp]
  exact (bind_eq rfl).trans (bind_error (access_none hparent))

/-- One child goes in each round, so as many rounds as there are children, and one more, do. -/
theorem clear_detaches {fuel : ℕ} (ht : t.Represents F) (hfuel : (F.children p).length < fuel) :
    ∃ t' F', clear p fuel t = .ok () t' ∧ t'.Represents F' ∧ Shrinks F F' := by
  induction fuel generalizing t F with
  | zero => exact absurd hfuel (Nat.not_lt_zero _)
  | succ fuel ih =>
    rcases hl : F.children p with _ | ⟨c, ys⟩
    · have hnext : (t p).next = none := by
        rw [ht.next, hl]
        rfl
      have hnone : ¬ (t p).next.isSome = true := by
        rw [hnext]
        exact Bool.false_ne_true
      refine ⟨t, F, (bind_eq rfl).trans ?_, ht, fun q => List.Sublist.refl _⟩
      rw [if_neg hnone]
      rfl
    · have hsome : (t p).next.isSome = true := by
        rw [ht.next, hl]
        rfl
      obtain ⟨t₁, hpop, ht₁⟩ := popFront_detaches ht hl
      have hlength : ((F.detach c).children p).length < fuel := by
        have herase : (F.detach c).children p = ys := by
          simp only [Forest.Ordered.detach, hl, List.erase_cons_head]
        rw [hl, List.length_cons] at hfuel
        rw [herase]
        omega
      obtain ⟨t', F', hclear, ht', hshrinks⟩ := ih ht₁ hlength
      refine ⟨t', F', (bind_eq rfl).trans ?_, ht',
        fun q => (hshrinks q).trans (shrinks_detach F c q)⟩
      rw [if_pos hsome]
      exact (bind_eq hpop).trans hclear

end TreeM

open TreeM

/-- A call of a member function; the node it is called on is in range. -/
inductive TreeOperation (n : ℕ) where
  | addNext (p : Fin n) (index : ℤ)
  | popFront (p : Fin n)
  | release (i : Fin n)
  | clear (p : Fin n)

namespace TreeOperation

variable {op : TreeOperation n} {t t' : Tree n} {F : Forest.Ordered (Fin n)}

def call : TreeOperation n → TreeM n Unit
  | .addNext p index => TreeM.addNext p index
  | .popFront p => TreeM.popFront p
  | .release i => TreeM.release i
  | .clear p => TreeM.clear p (n + 1)

/-- The tree after the call, whether or not it throws. -/
def apply (op : TreeOperation n) (t : Tree n) : Tree n :=
  match op.call t with
  | .ok _ t' => t'
  | .error _ t' => t'

/-- The index is not negative, so that the call does not read outside the vector. -/
def Defined : TreeOperation n → Prop
  | .addNext _ index => 0 ≤ index
  | _ => True

def InRange : TreeOperation n → Prop
  | .addNext _ index => 0 ≤ index ∧ index < n
  | _ => True

theorem InRange.defined (h : op.InRange) : op.Defined := by
  cases op with
  | addNext p index => exact h.1
  | popFront p => trivial
  | release i => trivial
  | clear p => trivial

/-- All that a call can do: throw and change nothing, attach an orphan, or detach. -/
inductive Effect (op : TreeOperation n) (t : Tree n) (F : Forest.Ordered (Fin n)) : Prop
  | throws (e : TreeError) (hcall : op.call t = .error e t)
  | attaches (p c : Fin n) (t' : Tree n) (hop : op = .addNext p c) (hc : F.parent c = none)
      (hcall : op.call t = .ok () t') (ht' : t'.Represents (F.attach p c hc))
  | detaches (t' : Tree n) (F' : Forest.Ordered (Fin n)) (hop : ∀ p index, op ≠ .addNext p index)
      (hcall : op.call t = .ok () t') (ht' : t'.Represents F') (hshrinks : Shrinks F F')

theorem effect (ht : t.Represents F) (hop : op.Defined) : op.Effect t F := by
  cases op with
  | addNext p index =>
    obtain hlt | hge := lt_or_ge index n
    · obtain ⟨c, rfl⟩ : ∃ c : Fin n, index = c := by
        obtain ⟨k, rfl⟩ := Int.eq_ofNat_of_zero_le hop
        exact ⟨⟨k, by exact_mod_cast hlt⟩, rfl⟩
      obtain hc | hc := eq_or_ne (F.parent c) none
      · obtain ⟨t', hlink, ht'⟩ := link_attaches ht p hc
        have horphan : (t c).parent = none := by rw [ht.parent, hc]
        exact .attaches p c t' rfl hc ((addNext_orphan horphan).trans hlink) ht'
      · exact .throws _ (addNext_assigned (by rwa [ht.parent]))
    · exact .throws _ (addNextWithin_outOfBounds hge t)
  | popFront p =>
    rcases hl : F.children p with _ | ⟨c, ys⟩
    · exact .throws _ (popFront_empty ht hl)
    · obtain ⟨t', hpop, ht'⟩ := popFront_detaches ht hl
      exact .detaches t' _ (fun _ _ h => by cases h) hpop ht' (shrinks_detach F c)
  | release i =>
    cases hp : F.parent i with
    | none => exact .throws _ (release_orphan ht hp)
    | some p =>
      obtain ⟨t', hrelease, ht'⟩ := release_detaches ht hp
      exact .detaches t' _ (fun _ _ h => by cases h) hrelease ht' (shrinks_detach F i)
  | clear p =>
    have hfuel : (F.children p).length < n + 1 :=
      Nat.lt_succ_of_le (Tree.Represents.length_le p)
    obtain ⟨t', F', hclear, ht', hshrinks⟩ := clear_detaches ht hfuel
    exact .detaches t' F' (fun _ _ h => by cases h) hclear ht' hshrinks

end TreeOperation

/-- A tree after a list of calls, and for each node the number of the call that attached it
last. -/
structure TreeHistory (n : ℕ) where
  tree : Tree n
  attachedAt : Fin n → ℕ
  calls : ℕ

namespace TreeHistory

variable {h : TreeHistory n} {op : TreeOperation n} {ops : List (TreeOperation n)}
  {F : Forest.Ordered (Fin n)}

def initial : TreeHistory n := ⟨.make n, fun _ => 0, 0⟩

/-- The node that a call which does not throw attaches. -/
def stamp (op : TreeOperation n) (now : ℕ) (attachedAt : Fin n → ℕ) : Fin n → ℕ :=
  match op with
  | .addNext _ index => fun c => if (c : ℤ) = index then now else attachedAt c
  | _ => attachedAt

def step (h : TreeHistory n) (op : TreeOperation n) : TreeHistory n :=
  match op.call h.tree with
  | .ok _ t => ⟨t, stamp op h.calls h.attachedAt, h.calls + 1⟩
  | .error _ t => ⟨t, h.attachedAt, h.calls + 1⟩

/-- The exceptions are caught by the caller. -/
def run (ops : List (TreeOperation n)) : TreeHistory n := ops.foldl step initial

/-- The tree represents a family whose lists are in the order of attachment. -/
structure Follows (h : TreeHistory n) (F : Forest.Ordered (Fin n)) : Prop where
  represents : h.tree.Represents F
  before : ∀ p, ∀ c ∈ F.children p, h.attachedAt c < h.calls
  sorted : ∀ p, (F.children p).Pairwise fun c d => h.attachedAt c < h.attachedAt d

theorem follows_initial : (initial : TreeHistory n).Follows .empty where
  represents := Tree.represents_make
  before _ _ hc := absurd hc List.not_mem_nil
  sorted _ := List.Pairwise.nil

namespace Follows

theorem step (hF : h.Follows F) (hop : op.Defined) : ∃ F', (h.step op).Follows F' := by
  cases op.effect hF.represents hop with
  | throws e hcall =>
    refine ⟨F, ?_⟩
    rw [TreeHistory.step, hcall]
    exact ⟨hF.represents, fun p c hc => Nat.lt_succ_of_lt (hF.before p c hc), hF.sorted⟩
  | attaches p c t' hop hc hcall ht' =>
    subst hop
    have hstep : h.step (.addNext p c) =
        ⟨t', stamp (.addNext p c) h.calls h.attachedAt, h.calls + 1⟩ := by
      rw [TreeHistory.step, hcall]
    -- the orphan is in no list, so that the stamps in the lists stay
    have hother : ∀ q, ∀ d ∈ F.children q,
        stamp (.addNext p (c : ℤ)) h.calls h.attachedAt d = h.attachedAt d := by
      intro q d hd
      have hne : (d : ℤ) ≠ c := by
        intro he
        obtain rfl : d = c := Fin.ext (by exact_mod_cast he)
        rw [F.mem_children, hc] at hd
        cases hd
      exact if_neg hne
    have hself : stamp (.addNext p (c : ℤ)) h.calls h.attachedAt c = h.calls := if_pos rfl
    have hbefore : ∀ q, ∀ d ∈ (F.attach p c hc).children q,
        stamp (.addNext p (c : ℤ)) h.calls h.attachedAt d < h.calls + 1 := by
      intro q d hd
      obtain rfl | hq := eq_or_ne q p
      · simp only [Forest.Ordered.attach, Function.update_self, List.mem_append,
          List.mem_singleton] at hd
        obtain hd | rfl := hd
        · rw [hother q d hd]
          exact Nat.lt_succ_of_lt (hF.before q d hd)
        · rw [hself]
          exact Nat.lt_succ_self _
      · simp only [Forest.Ordered.attach, Function.update_of_ne hq] at hd
        rw [hother q d hd]
        exact Nat.lt_succ_of_lt (hF.before q d hd)
    have hold : ∀ q, (F.children q).Pairwise fun d e =>
        stamp (.addNext p (c : ℤ)) h.calls h.attachedAt d <
          stamp (.addNext p (c : ℤ)) h.calls h.attachedAt e := by
      intro q
      refine (hF.sorted q).imp_of_mem ?_
      intro d e hd he hlt
      rwa [hother q d hd, hother q e he]
    refine ⟨F.attach p c hc, ?_⟩
    rw [hstep]
    refine ⟨ht', hbefore, fun q => ?_⟩
    obtain rfl | hq := eq_or_ne q p
    · simp only [Forest.Ordered.attach, Function.update_self]
      refine List.pairwise_append.mpr ⟨hold q, List.pairwise_singleton _ _, ?_⟩
      intro d hd e he
      obtain rfl := List.mem_singleton.mp he
      rw [hother q d hd, hself]
      exact hF.before q d hd
    · simp only [Forest.Ordered.attach, Function.update_of_ne hq]
      exact hold q
  | detaches t' F' hop hcall ht' hshrinks =>
    have hstamp : stamp op h.calls h.attachedAt = h.attachedAt := by
      cases op with
      | addNext p index => exact absurd rfl (hop p index)
      | popFront p => rfl
      | release i => rfl
      | clear p => rfl
    refine ⟨F', ?_⟩
    rw [TreeHistory.step, hcall]
    simp only [hstamp]
    refine ⟨ht', fun p c hc => ?_, fun p => (hF.sorted p).sublist (hshrinks p)⟩
    exact Nat.lt_succ_of_lt (hF.before p c ((hshrinks p).subset hc))

theorem run (hops : ∀ op ∈ ops, op.Defined) : ∃ F, (TreeHistory.run ops).Follows F := by
  induction ops using List.reverseRecOn with
  | nil => exact ⟨.empty, follows_initial⟩
  | append_singleton ops op ih =>
    obtain ⟨F, hF⟩ := ih fun x hx => hops x (List.mem_append_left _ hx)
    rw [TreeHistory.run, List.foldl_append]
    exact hF.step (hops op (List.mem_append_right _ (List.mem_singleton_self op)))

end Follows

end TreeHistory

/-- Whatever is called on a tree, its links stay those of ordered lists of children, and a call
that throws changes none of them. -/
theorem tree_consistent (ops : List (TreeOperation n)) (hops : ∀ op ∈ ops, op.InRange) :
    let h := TreeHistory.run ops
    (∀ p, ∃ children, h.tree.childrenOf p = some children ∧ children.Nodup ∧
      (∀ c, c ∈ children ↔ (h.tree c).parent = some p) ∧
      children.Pairwise (fun c d => h.attachedAt c < h.attachedAt d) ∧
      (h.tree p).last = children.getLast? ∧ (h.tree p).childrenCount = children.length) ∧
    (∀ c d, (h.tree c).rightSibling = some d ↔ (h.tree d).leftSibling = some c) ∧
    (∀ c, (h.tree c).parent = none →
      (h.tree c).leftSibling = none ∧ (h.tree c).rightSibling = none) ∧
    ∀ op : TreeOperation n, op.InRange → ∀ e t, op.call h.tree = .error e t → t = h.tree := by
  obtain ⟨F, hF⟩ := TreeHistory.Follows.run fun op hop => (hops op hop).defined
  have ht := hF.represents
  refine ⟨fun p => ?_, ht.mirror, fun c hc => ?_, fun op hop e t hcall => ?_⟩
  · refine ⟨_, ht.childrenOf_eq p, F.nodup p, fun c => ?_, hF.sorted p, ht.last p, ht.count p⟩
    rw [F.mem_children, ht.parent]
  · rw [ht.parent] at hc
    exact ht.orphan c hc
  · cases TreeOperation.effect ht hop.defined with
    | throws e' hthrow =>
      rw [hthrow] at hcall
      cases hcall
      rfl
    | attaches p c t' hop hc hok ht' =>
      rw [hok] at hcall
      cases hcall
    | detaches t' F' hop hok ht' hshrinks =>
      rw [hok] at hcall
      cases hcall

theorem tree_consistent_three :
    let ops : List (TreeOperation 3) := [.addNext 0 2, .addNext 0 1, .addNext 0 1, .popFront 0]
    ∃ children, (TreeHistory.run ops).tree.childrenOf 0 = some children ∧ children.Nodup := by
  intro ops
  have hops : ∀ op ∈ ops, op.InRange := by
    intro op hop
    simp only [ops, List.mem_cons, List.not_mem_nil, or_false] at hop
    obtain rfl | rfl | rfl | rfl := hop
    · exact ⟨by decide, by decide⟩
    · exact ⟨by decide, by decide⟩
    · exact ⟨by decide, by decide⟩
    · trivial
  obtain ⟨children, hwalk, hnodup, -⟩ := (tree_consistent ops hops).1 0
  exact ⟨children, hwalk, hnodup⟩

end Gempba
