import Mathlib.Logic.Relation

/-!
# Labelled machines that block, move or raise

A machine reads a label and a state. The label resolves every choice left
open (which party moves, which message arrives), so that a step is a
function and a run can be evaluated. A predicate on state and label
restricts the runs under study, without a second machine.
-/

namespace Transition

universe u v w

/-- An attempted step is not enabled, moves on, or raises an error. -/
inductive Outcome (ε : Type u) (σ : Type v) where
  | blocked
  | moved (state : σ)
  | raised (error : ε)
  deriving DecidableEq, Repr

namespace Outcome

variable {ε : Type u} {σ τ : Type v}

def map (f : σ → τ) : Outcome ε σ → Outcome ε τ
  | .blocked => .blocked
  | .moved s => .moved (f s)
  | .raised e => .raised e

def mapError {δ : Type*} (f : ε → δ) : Outcome ε σ → Outcome δ σ
  | .blocked => .blocked
  | .moved s => .moved s
  | .raised e => .raised (f e)

/-- A second step from wherever the first one moved to. -/
def bind (x : Outcome ε σ) (f : σ → Outcome ε τ) : Outcome ε τ :=
  match x with
  | .blocked => .blocked
  | .moved s => f s
  | .raised e => .raised e

def ofExcept : Except ε σ → Outcome ε σ
  | .ok s => .moved s
  | .error e => .raised e

theorem ofExcept_eq_moved {x : Except ε σ} {t : σ} : ofExcept x = .moved t ↔ x = .ok t := by
  cases x <;> simp [ofExcept]

theorem ofExcept_ne_blocked (x : Except ε σ) : ofExcept x ≠ .blocked := by
  cases x <;> simp [ofExcept]

theorem map_eq_moved {f : σ → τ} {x : Outcome ε σ} {t : τ} :
    x.map f = .moved t ↔ ∃ s, x = .moved s ∧ f s = t := by
  cases x <;> simp [map]

theorem map_eq_raised {f : σ → τ} {x : Outcome ε σ} {e : ε} :
    x.map f = .raised e ↔ x = .raised e := by
  cases x <;> simp [map]

theorem mapError_eq_moved {δ : Type*} {f : ε → δ} {x : Outcome ε σ} {t : σ} :
    x.mapError f = .moved t ↔ x = .moved t := by
  cases x <;> simp [mapError]

theorem mapError_eq_raised {δ : Type*} {f : ε → δ} {x : Outcome ε σ} {d : δ} :
    x.mapError f = .raised d ↔ ∃ e, x = .raised e ∧ f e = d := by
  cases x <;> simp [mapError]

theorem bind_eq_moved {x : Outcome ε σ} {f : σ → Outcome ε τ} {t : τ} :
    x.bind f = .moved t ↔ ∃ s, x = .moved s ∧ f s = .moved t := by
  cases x <;> simp [bind]

theorem bind_eq_raised {x : Outcome ε σ} {f : σ → Outcome ε τ} {e : ε} :
    x.bind f = .raised e ↔ x = .raised e ∨ ∃ s, x = .moved s ∧ f s = .raised e := by
  cases x <;> simp [bind]

end Outcome

structure Machine (σ : Type u) (ι : Type v) (ε : Type w) where
  initial : σ → Prop
  step : ι → σ → Outcome ε σ

namespace Machine

variable {σ : Type u} {ι : Type v} {ε : Type w} (M : Machine σ ι ε)

def StepWhere (P : σ → ι → Prop) (s t : σ) : Prop := ∃ l, P s l ∧ M.step l s = .moved t

/-- Reached from an initial state by steps that all meet `P`. -/
def ReachableWhere (P : σ → ι → Prop) (t : σ) : Prop :=
  ∃ s, M.initial s ∧ Relation.ReflTransGen (M.StepWhere P) s t

abbrev Reachable (t : σ) : Prop := M.ReachableWhere (fun _ _ => True) t

variable {M} {P Q : σ → ι → Prop}

theorem ReachableWhere.start {s : σ} (h : M.initial s) : M.ReachableWhere P s :=
  ⟨s, h, .refl⟩

theorem ReachableWhere.tail {s t : σ} {l : ι} (h : M.ReachableWhere P s) (hl : P s l)
    (hst : M.step l s = .moved t) : M.ReachableWhere P t := by
  obtain ⟨r, hr, hrs⟩ := h
  exact ⟨r, hr, hrs.tail ⟨l, hl, hst⟩⟩

/-- The invariant rule. The step case may use that the state before it is reachable. -/
theorem ReachableWhere.invariant {I : σ → Prop} (h0 : ∀ s, M.initial s → I s)
    (hstep : ∀ s l t, M.ReachableWhere P s → I s → P s l → M.step l s = .moved t → I t)
    {t : σ} (h : M.ReachableWhere P t) : I t := by
  obtain ⟨s, hs, hst⟩ := h
  induction hst with
  | refl => exact h0 s hs
  | tail hsu hut ih =>
    obtain ⟨l, hl, hut⟩ := hut
    exact hstep _ l _ ⟨s, hs, hsu⟩ ih hl hut

theorem ReachableWhere.mono (hPQ : ∀ s l, M.ReachableWhere P s → P s l → Q s l)
    {t : σ} (h : M.ReachableWhere P t) : M.ReachableWhere Q t :=
  h.invariant (fun _ hs => .start hs)
    (fun s l _ hs hQ hl hst => hQ.tail (hPQ s l hs hl) hst)

theorem ReachableWhere.reachable {t : σ} (h : M.ReachableWhere P t) : M.Reachable t :=
  h.mono (fun _ _ _ _ => trivial)

/-- A machine observed through `f`: each of its steps is one step of `N` or leaves the
observation unchanged. Reachability is inherited by the observation. -/
theorem ReachableWhere.observe {τ κ δ : Type*} {N : Machine τ κ δ} {R : τ → κ → Prop}
    (f : σ → τ) (h0 : ∀ s, M.initial s → N.initial (f s))
    (hstep : ∀ s l t, M.ReachableWhere P s → P s l → M.step l s = .moved t →
      f t = f s ∨ ∃ k, R (f s) k ∧ N.step k (f s) = .moved (f t))
    {t : σ} (h : M.ReachableWhere P t) : N.ReachableWhere R (f t) := by
  refine h.invariant (I := fun s => N.ReachableWhere R (f s)) (fun s hs => .start (h0 s hs)) ?_
  intro s l t hs hfs hl hst
  obtain he | ⟨k, hk, hkt⟩ := hstep s l t hs hl hst
  · rw [he]
    exact hfs
  · exact hfs.tail hk hkt

variable (M) in
/-- Runs a list of labels; `none` as soon as one of them does not move. -/
def run : List ι → σ → Option σ
  | [], s => some s
  | l :: ls, s =>
    match M.step l s with
    | .moved t => run ls t
    | _ => none

variable (M P) in
/-- Every label of the list is met in a state where `P` allows it. -/
def Obeys : List ι → σ → Prop
  | [], _ => True
  | l :: ls, s => P s l ∧ ∀ t ∈ (match M.step l s with | .moved t => some t | _ => none), Obeys ls t

instance Obeys.decidable [∀ s l, Decidable (P s l)] : ∀ ls s, Decidable (M.Obeys P ls s)
  | [], _ => isTrue trivial
  | l :: ls, s =>
    match h : M.step l s with
    | .moved t =>
      have := Obeys.decidable ls t
      decidable_of_iff (P s l ∧ M.Obeys P ls t) (by simp [Obeys, h])
    | .blocked => decidable_of_iff (P s l) (by simp [Obeys, h])
    | .raised _ => decidable_of_iff (P s l) (by simp [Obeys, h])

variable (M) in
/-- Every state that the list passes through satisfies `I`. -/
def Stays (I : σ → Prop) : List ι → σ → Prop
  | [], s => I s
  | l :: ls, s => I s ∧
    ∀ t ∈ (match M.step l s with | .moved t => some t | _ => none), Stays I ls t

variable (M) in
/-- A step of the list raises `e`. -/
def Raises (e : ε) : List ι → σ → Prop
  | [], _ => False
  | l :: ls, s => M.step l s = .raised e ∨ ∃ t, M.step l s = .moved t ∧ Raises e ls t

theorem obeys_cons {l : ι} {ls : List ι} {s t : σ} (h : M.step l s = .moved t) :
    M.Obeys P (l :: ls) s ↔ P s l ∧ M.Obeys P ls t := by
  simp [Obeys, h]

theorem stays_cons {I : σ → Prop} {l : ι} {ls : List ι} {s t : σ} (h : M.step l s = .moved t) :
    M.Stays I (l :: ls) s ↔ I s ∧ M.Stays I ls t := by
  simp [Stays, h]

/-- `J` is what every step keeps. -/
theorem not_raises_of_obeys {e : ε} {J : σ → Prop}
    (hJ : ∀ s l t, J s → M.step l s = .moved t → J t)
    (hP : ∀ s l, J s → P s l → M.step l s ≠ .raised e)
    {ls : List ι} {s : σ} (hs : J s) (hobeys : M.Obeys P ls s) : ¬ M.Raises e ls s := by
  induction ls generalizing s with
  | nil => exact id
  | cons l ls ih =>
    rintro (hraised | ⟨t, ht, hraises⟩)
    · exact hP s l hs hobeys.1 hraised
    · exact ih (hJ s l t hs ht) ((obeys_cons ht).mp hobeys).2 hraises

theorem Stays.head {I : σ → Prop} {ls : List ι} {s : σ} (h : M.Stays I ls s) : I s := by
  cases ls with
  | nil => exact h
  | cons l ls => exact h.1

/-- Where `P` is exactly what a step needs to keep `I`, a run keeps `I` throughout exactly when
all of its steps meet `P`. `J` is what every step keeps. -/
theorem stays_iff_obeys {I J : σ → Prop}
    (hJ : ∀ s l t, J s → M.step l s = .moved t → J t)
    (hI : ∀ s l t, J s → I s → M.step l s = .moved t → (I t ↔ P s l))
    {ls : List ι} {s t : σ} (hs : J s) (hIs : I s) (hrun : M.run ls s = some t) :
    M.Stays I ls s ↔ M.Obeys P ls s := by
  induction ls generalizing s with
  | nil => exact iff_of_true hIs trivial
  | cons l ls ih =>
    simp only [Machine.run] at hrun
    split at hrun
    · rename_i u hu
      rw [stays_cons hu, obeys_cons hu]
      have hstep := hI s l u hs hIs hu
      constructor
      · rintro ⟨-, hstays⟩
        exact ⟨hstep.mp hstays.head, (ih (hJ s l u hs hu) hstays.head hrun).mp hstays⟩
      · rintro ⟨hP, hobeys⟩
        exact ⟨hIs, (ih (hJ s l u hs hu) (hstep.mpr hP) hrun).mpr hobeys⟩
    · cases hrun

theorem reflTransGen_of_run {ls : List ι} {s t : σ} (hrun : M.run ls s = some t)
    (hP : M.Obeys P ls s) : Relation.ReflTransGen (M.StepWhere P) s t := by
  induction ls generalizing s with
  | nil =>
    cases hrun
    exact .refl
  | cons l ls ih =>
    simp only [Machine.run] at hrun
    split at hrun
    · rename_i u hu
      obtain ⟨hl, htail⟩ := hP
      exact .head ⟨l, hl, hu⟩ (ih hrun (htail u (by simp [hu])))
    · cases hrun

theorem ReachableWhere.run {ls : List ι} {s t : σ} (hs : M.ReachableWhere P s)
    (hrun : M.run ls s = some t) (hP : M.Obeys P ls s) : M.ReachableWhere P t := by
  induction ls generalizing s with
  | nil =>
    cases hrun
    exact hs
  | cons l ls ih =>
    simp only [Machine.run] at hrun
    split at hrun
    · rename_i u hu
      obtain ⟨hl, htail⟩ := hP
      exact ih (hs.tail hl hu) hrun (htail u (by simp [hu]))
    · cases hrun

theorem obeys_true (ls : List ι) (s : σ) : M.Obeys (fun _ _ => True) ls s := by
  induction ls generalizing s with
  | nil => trivial
  | cons l ls ih => exact ⟨trivial, fun t _ => ih t⟩

theorem Reachable.run {ls : List ι} {s t : σ} (hs : M.Reachable s)
    (hrun : M.run ls s = some t) : M.Reachable t :=
  ReachableWhere.run hs hrun (obeys_true ls s)

end Machine

end Transition
