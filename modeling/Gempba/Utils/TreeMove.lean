import Gempba.Utils.TreeCalls

/-!
# A moved process tree

The default move hands the vector over, so every pointer between nodes stays
valid, and leaves an empty vector behind. The reference of each node to its
container is not part of the vector's state and stays bound to the object the
nodes were built in; `add_next` takes the size of the tree from there.
-/

namespace Gempba

set_option autoImplicit false

variable {n : ℕ}

/-- The object that is moved from, and the one that is moved to. -/
inductive TreePlace where
  | source | target
  deriving DecidableEq, Repr

/-- The nodes, the object whose `m_c` they are in and the one their `m_tree` refers to. -/
structure TreeObject (n : ℕ) where
  nodes : Tree n
  holder : TreePlace
  reference : TreePlace

namespace TreeObject

def build (t : Tree n) : TreeObject n := ⟨t, .source, .source⟩

def move (o : TreeObject n) : TreeObject n := { o with holder := .target }

/-- `m_c.size()` of an object. -/
def size (o : TreeObject n) (place : TreePlace) : ℕ := if place = o.holder then n else 0

end TreeObject

inductive TreeRequest (n : ℕ) where
  | operation (op : TreeOperation n)
  | isAssigned (i : Fin n)
  | hasNext (i : Fin n)
  | getNext (i : Fin n)
  | getParent (i : Fin n)
  | size (i : Fin n)
  | children (i : Fin n)
  | treeSize
  | toString

inductive TreeAnswer (n : ℕ) where
  | done
  | thrown (e : TreeError)
  | flag (b : Bool)
  | index (i : Option (Fin n))
  | count (k : ℤ)
  | children (l : Option (List (Fin n)))
  | text (s : Option String)
  deriving DecidableEq

def TreeAnswer.ofResult : EStateM.Result TreeError (Tree n) Unit → TreeAnswer n × Tree n
  | .ok _ t => (.done, t)
  | .error e t => (.thrown e, t)

namespace TreeObject

/-- Only `add_next` looks at the container. -/
def call (o : TreeObject n) : TreeOperation n → TreeM n Unit
  | .addNext p index => TreeM.addNextWithin (o.size o.reference) p index
  | op => op.call

def answer (o : TreeObject n) : TreeRequest n → TreeAnswer n × Tree n
  | .operation op => TreeAnswer.ofResult (o.call op o.nodes)
  | .isAssigned i => (.flag (o.nodes.isAssigned i), o.nodes)
  | .hasNext i => (.flag (o.nodes.hasNext i), o.nodes)
  | .getNext i => (.index (o.nodes i).next, o.nodes)
  | .getParent i => (.index (o.nodes i).parent, o.nodes)
  | .size i => (.count (o.nodes i).childrenCount, o.nodes)
  | .children i => (.children (o.nodes.childrenOf i), o.nodes)
  | .treeSize => (.count (o.size o.holder), o.nodes)
  | .toString => (.text o.nodes.toString, o.nodes)

def answers : List (TreeRequest n) → TreeObject n → List (TreeAnswer n) × Tree n
  | [], o => ([], o.nodes)
  | r :: rs, o =>
    let (a, t) := o.answer r
    let (as, t) := answers rs { o with nodes := t }
    (a :: as, t)

end TreeObject

namespace TreeRequest

def Attaches : TreeRequest n → Prop
  | .operation (.addNext _ index) => 0 ≤ index ∧ index < n
  | _ => False

end TreeRequest

namespace TreeObject

variable {t : Tree n} {r : TreeRequest n}

/-- Only an index within the vector finds out what `m_tree` refers to. -/
theorem answer_move (h : ¬ r.Attaches) : (build t).move.answer r = (build t).answer r := by
  cases r with
  | operation op =>
    cases op with
    | addNext p index =>
      have hcall : (build t).move.call (.addNext p index) t =
          (build t).call (.addNext p index) t := by
        obtain hneg | hpos := lt_or_ge index 0
        · exact (TreeM.addNextWithin_negative hneg t).trans
            (TreeM.addNextWithin_negative hneg t).symm
        · have hout : n ≤ index := not_lt.mp fun hlt => h ⟨hpos, hlt⟩
          exact (TreeM.addNextWithin_outOfBounds hpos t).trans
            (TreeM.addNextWithin_outOfBounds hout t).symm
      exact congrArg TreeAnswer.ofResult hcall
    | popFront p => rfl
    | release i => rfl
    | clear p => rfl
  | isAssigned i => rfl
  | hasNext i => rfl
  | getNext i => rfl
  | getParent i => rfl
  | size i => rfl
  | children i => rfl
  | treeSize => rfl
  | toString => rfl

theorem addNext_ne_outOfBounds (p c : Fin n) (t s : Tree n) :
    TreeM.addNext p (c : ℤ) t ≠ .error .outOfBounds s := by
  intro h
  obtain hc | hc := eq_or_ne (t c).parent none
  · rw [TreeM.addNext_orphan hc] at h
    obtain he | he := TreeM.Throws.link t _ s h
    · cases he
    · cases he
  · rw [TreeM.addNext_assigned hc] at h
    cases h

theorem answer_move_ne (h : r.Attaches) :
    ((build t).move.answer r).1 ≠ ((build t).answer r).1 := by
  cases r with
  | operation op =>
    cases op with
    | addNext p index =>
      obtain ⟨hpos, hlt⟩ := h
      obtain ⟨k, rfl⟩ := Int.eq_ofNat_of_zero_le hpos
      have hempty : TreeM.addNextWithin 0 p k t = .error .outOfBounds t :=
        TreeM.addNextWithin_outOfBounds hpos t
      have hmoved : (build t).move.answer (.operation (.addNext p k)) =
          (.thrown .outOfBounds, t) := congrArg TreeAnswer.ofResult hempty
      have hkept := addNext_ne_outOfBounds p ⟨k, by exact_mod_cast hlt⟩ t
      have hresult : (build t).answer (.operation (.addNext p k)) =
          TreeAnswer.ofResult (TreeM.addNext p k t) := rfl
      rw [hmoved, hresult]
      cases hcall : TreeM.addNext p k t with
      | ok a s => exact fun he => by cases he
      | error e s =>
        intro he
        obtain rfl : TreeError.outOfBounds = e := TreeAnswer.thrown.inj he
        exact hkept s hcall
    | popFront p => exact h.elim
    | release i => exact h.elim
    | clear p => exact h.elim
  | isAssigned i => exact h.elim
  | hasNext i => exact h.elim
  | getNext i => exact h.elim
  | getParent i => exact h.elim
  | size i => exact h.elim
  | children i => exact h.elim
  | treeSize => exact h.elim
  | toString => exact h.elim

theorem answers_move_iff (t : Tree n) (rs : List (TreeRequest n)) :
    answers rs (build t).move = answers rs (build t) ↔ ∀ r ∈ rs, ¬ r.Attaches := by
  induction rs generalizing t with
  | nil => exact ⟨fun _ r hr => absurd hr List.not_mem_nil, fun _ => rfl⟩
  | cons r rs ih =>
    have hkept : answers (r :: rs) (build t) =
        (((build t).answer r).1 :: (answers rs (build ((build t).answer r).2)).1,
          (answers rs (build ((build t).answer r).2)).2) := rfl
    have hmoved : answers (r :: rs) (build t).move =
        (((build t).move.answer r).1 :: (answers rs (build ((build t).move.answer r).2).move).1,
          (answers rs (build ((build t).move.answer r).2).move).2) := rfl
    rw [hkept, hmoved, List.forall_mem_cons, ← ih ((build t).answer r).2]
    constructor
    · intro h
      obtain ⟨hanswers, hnodes⟩ := Prod.mk.inj h
      obtain ⟨hfirst, hrest⟩ := List.cons.inj hanswers
      have hr : ¬ r.Attaches := fun hattaches => answer_move_ne hattaches hfirst
      rw [answer_move hr] at hrest hnodes
      exact ⟨hr, Prod.ext hrest hnodes⟩
    · rintro ⟨hr, hrest⟩
      rw [answer_move hr, hrest]

end TreeObject

/-- A move is transparent to later requests exactly when none of them attaches a node. -/
theorem tree_move_iff (ops : List (TreeOperation n)) (rs : List (TreeRequest n)) :
    let o := TreeObject.build (TreeHistory.run ops).tree
    o.move.answers rs = o.answers rs ↔ ∀ r ∈ rs, ¬ r.Attaches :=
  TreeObject.answers_move_iff (TreeHistory.run ops).tree rs

/-- Rank 2 is released and assigned to rank 1 again, once in the tree that was built and once
after it was moved. -/
theorem tree_move_loses_bounds :
    let ops : List (TreeOperation 3) := [.addNext 1 2]
    let rs : List (TreeRequest 3) := [.operation (.release 2), .operation (.addNext 1 2)]
    let o := TreeObject.build (TreeHistory.run ops).tree
    (o.answers rs).1 = [.done, .done] ∧
      (o.move.answers rs).1 = [.done, .thrown .outOfBounds] ∧ o.move.answers rs ≠ o.answers rs := by
  intro ops rs o
  have hkept : (o.answers rs).1 = [.done, .done] := rfl
  have hmoved : (o.move.answers rs).1 = [.done, .thrown .outOfBounds] := rfl
  refine ⟨hkept, hmoved, fun h => ?_⟩
  rw [h, hkept] at hmoved
  cases hmoved

end Gempba
