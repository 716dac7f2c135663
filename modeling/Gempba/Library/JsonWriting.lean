import Gempba.Library.JsonAutomaton

/-!
# Writing JSON texts

A text that is written piece by piece is one value exactly when a condition on
what is written holds. The rules follow the pieces: a value, the entries of a
container, the fields of an object from the first label to the closing brace.
-/

namespace Json

set_option autoImplicit false

def Printable (a : List UInt8) : Prop := ∀ c ∈ a, 0x20 ≤ c

instance : DecidablePred Printable := List.decidableBAll _

/-- The text starts with a byte that ends a value. -/
def breaks : List UInt8 → Bool
  | [] => false
  | c :: _ => decide (c ∈ [COMMA, CLOSE_BRACE, CLOSE_BRACKET])

/-- The rest of a key without escapes, its closing quote and a colon. -/
def endsLabel : List UInt8 → Bool
  | [] => false
  | c :: s =>
    if c = QUOTE then s == [COLON]
    else decide (0x20 ≤ c) && decide (c ≠ BACKSLASH) && endsLabel s

/-- A byte, a key and a colon. -/
def isLabel (c : UInt8) : List UInt8 → Bool
  | d :: e :: s => d == c && e == QUOTE && endsLabel s
  | _ => false

/-- From the first state, the text leads to the second when the condition holds, else nowhere. -/
structure Tail (p : Prop) (start : State) (a : List UInt8) (finish : State) : Prop where
  accepts : ∀ t, Accepts start (a ++ t) ↔ p ∧ Accepts finish t
  printable : Printable a
  breaks : breaks a = true

structure IsValue (p : Prop) (a : List UInt8) : Prop where
  accepts : ∀ k stack t, Json.breaks t = true →
    (Accepts (.inside .value k stack) (a ++ t) ↔ p ∧ Accepts (.inside .after k stack) t)
  printable : Printable a
  start : ∃ c s, a = c :: s ∧ ¬ IsSpace c ∧ c ≠ CLOSE_BRACKET

/-- An entry of a container. -/
structure IsEntry (k : Container) (p : Prop) (a : List UInt8) : Prop where
  accepts : ∀ stack t, Json.breaks t = true →
    (Accepts (.inside .next k stack) (a ++ t) ↔ p ∧ Accepts (.inside .after k stack) t)
  printable : Printable a
  start : ∃ c s, a = c :: s ∧ ¬ IsSpace c ∧ c ≠ k.closing

/-- The entries of a container from its opening on. -/
structure IsEntries (k : Container) (p : Prop) (a : List UInt8) : Prop where
  accepts : ∀ stack t, t.head? = some k.closing →
    (Accepts (.inside .first k stack) (a ++ t) ↔ p ∧ Accepts (.inside .after k stack) t)
  printable : Printable a

variable {p q : Prop} {a b lit : List UInt8} {start mid finish : State} {k : Container}
  {stack : List Container} {c : UInt8}

theorem Printable.append (ha : Printable a) (hb : Printable b) : Printable (a ++ b) := by
  intro c hc
  obtain hc | hc := List.mem_append.mp hc
  · exact ha c hc
  · exact hb c hc

theorem breaks_append (h : breaks a = true) : breaks (a ++ b) = true := by
  cases a with
  | nil => cases h
  | cons c a => exact h

theorem run_append : run start (a ++ b) = (run start a).bind fun state => run state b :=
  List.foldlM_append

theorem accepts_append (h : run start a = some mid) : Accepts start (a ++ b) ↔ Accepts mid b := by
  rw [Accepts, run_append, h]
  exact Iff.rfl

/-! Labels. -/

theorem endsLabel_cons (h : endsLabel (c :: a) = true) :
    (c = QUOTE ∧ a = [COLON]) ∨ (c ≠ QUOTE ∧ c ≠ BACKSLASH ∧ 0x20 ≤ c ∧ endsLabel a = true) := by
  rw [endsLabel] at h
  split at h
  · rename_i hc
    exact Or.inl ⟨hc, eq_of_beq h⟩
  · rename_i hc
    rw [Bool.and_eq_true, Bool.and_eq_true, decide_eq_true_eq, decide_eq_true_eq] at h
    exact Or.inr ⟨hc, h.1.2, h.1.1, h.2⟩

theorem step_plain {isKey : Bool} (hquote : c ≠ QUOTE) (hbackslash : c ≠ BACKSLASH)
    (hcontrol : 0x20 ≤ c) :
    step (.inside (.string isKey) k stack) c = some (.inside (.string isKey) k stack) := by
  rw [step, insideStep, if_neg hquote, if_neg hbackslash, if_neg (UInt8.not_lt.mpr hcontrol)]

theorem run_cons (h : step start c = some mid) : run start (c :: a) = run mid a := by
  rw [run, List.foldlM_cons, h]
  rfl

/-- A string goes on with bytes that need no escape. -/
theorem run_plain {isKey : Bool} (h : ∀ b ∈ a, 0x20 ≤ b ∧ b ≠ QUOTE ∧ b ≠ BACKSLASH) :
    run (.inside (.string isKey) k stack) a = some (.inside (.string isKey) k stack) := by
  induction a with
  | nil => rfl
  | cons c a ih =>
    obtain ⟨hcontrol, hquote, hbackslash⟩ := h c List.mem_cons_self
    rw [run_cons (step_plain hquote hbackslash hcontrol)]
    exact ih fun b hb => h b (List.mem_cons_of_mem c hb)

theorem run_endsLabel (h : endsLabel a = true) :
    run (.inside (.string true) k stack) a = some (.inside .value k stack) := by
  induction a with
  | nil => cases h
  | cons c a ih =>
    obtain ⟨rfl, rfl⟩ | ⟨hquote, hbackslash, hcontrol, h⟩ := endsLabel_cons h
    · rfl
    · rw [run_cons (step_plain hquote hbackslash hcontrol)]
      exact ih h

theorem printable_endsLabel (h : endsLabel a = true) : Printable a := by
  induction a with
  | nil => cases h
  | cons c a ih =>
    obtain ⟨rfl, rfl⟩ | ⟨_, _, hcontrol, h⟩ := endsLabel_cons h
    · decide
    · exact List.forall_mem_cons.mpr ⟨hcontrol, ih h⟩

theorem isLabel_iff : isLabel c a = true ↔ ∃ s, a = c :: QUOTE :: s ∧ endsLabel s = true := by
  constructor
  · intro h
    obtain _ | ⟨d, _ | ⟨e, s⟩⟩ := a
    · cases h
    · cases h
    · rw [isLabel, Bool.and_eq_true, Bool.and_eq_true] at h
      exact ⟨s, by rw [eq_of_beq h.1.1, eq_of_beq h.1.2], h.2⟩
  · rintro ⟨s, rfl, h⟩
    rw [isLabel, h, beq_self_eq_true, beq_self_eq_true]
    rfl

theorem run_label (h : isLabel COMMA a = true) :
    run (.inside .after .object stack) a = some (.inside .value .object stack) := by
  obtain ⟨s, rfl, hs⟩ := isLabel_iff.mp h
  exact run_endsLabel hs

theorem run_firstLabel (h : isLabel OPEN_BRACE a = true) :
    run (.inside .value k stack) a = some (.inside .value .object (k :: stack)) := by
  obtain ⟨s, rfl, hs⟩ := isLabel_iff.mp h
  exact run_endsLabel hs

theorem printable_label (h : isLabel c a = true) (hc : 0x20 ≤ c) : Printable a := by
  obtain ⟨s, rfl, hs⟩ := isLabel_iff.mp h
  have hquote : 0x20 ≤ QUOTE := by decide
  exact List.forall_mem_cons.mpr ⟨hc, List.forall_mem_cons.mpr ⟨hquote, printable_endsLabel hs⟩⟩

theorem breaks_label (h : isLabel COMMA a = true) : breaks a = true := by
  obtain ⟨s, rfl, _⟩ := isLabel_iff.mp h
  rfl

/-! Tails. -/

namespace Tail

theorem congr (h : Tail p start a finish) (hpq : p ↔ q) : Tail q start a finish := by
  rw [← propext hpq]
  exact h

theorem final (hrun : run start lit = some finish) (hprintable : Printable lit)
    (hbreaks : Json.breaks lit = true) : Tail True start lit finish := by
  refine ⟨fun t => ?_, hprintable, hbreaks⟩
  rw [accepts_append hrun, true_and]

theorem literal (hrun : run start lit = some mid) (hprintable : Printable lit)
    (hbreaks : Json.breaks lit = true) (h : Tail q mid b finish) :
    Tail q start (lit ++ b) finish := by
  refine ⟨fun t => ?_, hprintable.append h.printable, breaks_append hbreaks⟩
  rw [List.append_assoc, accepts_append hrun]
  exact h.accepts t

/-- A value after a literal that ends with a colon. -/
theorem valueWhen (hrun : run start lit = some (.inside .value k stack))
    (hprintable : Printable lit) (hbreaks : Json.breaks lit = true) (hvalue : IsValue p a)
    (h : Tail q (.inside .after k stack) b finish) :
    Tail (p ∧ q) start (lit ++ (a ++ b)) finish := by
  refine ⟨fun t => ?_, hprintable.append (hvalue.printable.append h.printable),
    breaks_append hbreaks⟩
  rw [List.append_assoc, accepts_append hrun, List.append_assoc,
    hvalue.accepts k stack _ (breaks_append h.breaks), h.accepts, and_assoc]

theorem value (hrun : run start lit = some (.inside .value k stack)) (hprintable : Printable lit)
    (hbreaks : Json.breaks lit = true) (hvalue : IsValue True a)
    (h : Tail q (.inside .after k stack) b finish) : Tail q start (lit ++ (a ++ b)) finish :=
  (valueWhen hrun hprintable hbreaks hvalue h).congr (.of_eq (true_and q))

theorem fieldWhen (hlabel : isLabel COMMA lit = true) (hvalue : IsValue p a)
    (h : Tail q (.inside .after .object stack) b finish) :
    Tail (p ∧ q) (.inside .after .object stack) (lit ++ (a ++ b)) finish :=
  valueWhen (run_label hlabel) (printable_label hlabel (by decide)) (breaks_label hlabel) hvalue h

theorem field (hlabel : isLabel COMMA lit = true) (hvalue : IsValue True a)
    (h : Tail q (.inside .after .object stack) b finish) :
    Tail q (.inside .after .object stack) (lit ++ (a ++ b)) finish :=
  (fieldWhen hlabel hvalue h).congr (.of_eq (true_and q))

/-- The entries of a container after a literal that opens it. -/
theorem entriesWhen (hrun : run start lit = some (.inside .first k stack))
    (hprintable : Printable lit) (hbreaks : Json.breaks lit = true) (hentries : IsEntries k p a)
    (hclosing : b.head? = some k.closing) (h : Tail q (.inside .after k stack) b finish) :
    Tail (p ∧ q) start (lit ++ (a ++ b)) finish := by
  refine ⟨fun t => ?_, hprintable.append (hentries.printable.append h.printable),
    breaks_append hbreaks⟩
  have hhead : (b ++ t).head? = some k.closing := by
    rw [List.head?_append, hclosing]
    rfl
  rw [List.append_assoc, accepts_append hrun, List.append_assoc,
    hentries.accepts stack _ hhead, h.accepts, and_assoc]

theorem entries (hrun : run start lit = some (.inside .first k stack))
    (hprintable : Printable lit) (hbreaks : Json.breaks lit = true)
    (hentries : IsEntries k True a) (hclosing : b.head? = some k.closing)
    (h : Tail q (.inside .after k stack) b finish) : Tail q start (lit ++ (a ++ b)) finish :=
  (entriesWhen hrun hprintable hbreaks hentries hclosing h).congr (.of_eq (true_and q))

/-- A word has ended where none of it is left. -/
theorem word (h : Tail q (.inside .after k stack) b finish) :
    Tail q (.inside (.word []) k stack) b finish := by
  refine ⟨fun t => ?_, h.printable, h.breaks⟩
  rw [← h.accepts t]
  cases b with
  | nil => cases h.breaks
  | cons c b =>
    rw [List.cons_append, accepts_cons, accepts_cons]
    exact Iff.rfl

end Tail

/-! Values. -/

theorem next_of_breaks {m : NumberMode} (h : breaks (c :: a) = true) : m.next c = none := by
  have hall : ∀ c ∈ [COMMA, CLOSE_BRACE, CLOSE_BRACKET],
      ∀ m ∈ [NumberMode.minus, .zero, .integer, .point, .fraction, .mark, .sign, .exponent],
        m.next c = none := List.all_iff_forall_prop.mp (by decide)
  apply hall c (of_decide_eq_true h)
  cases m <;> decide

namespace IsValue

theorem congr (h : IsValue p a) (hpq : p ↔ q) : IsValue q a := by
  rw [← propext hpq]
  exact h

/-- The text of a number is a value when the number may end where the text does. -/
theorem number {m : NumberMode}
    (hrun : ∀ k stack, run (.inside .value k stack) a = some (.inside (.number m) k stack))
    (hprintable : Printable a) (hstart : ∃ c s, a = c :: s ∧ ¬ IsSpace c ∧ c ≠ CLOSE_BRACKET) :
    IsValue (m.ends = true) a := by
  refine ⟨fun k stack t ht => ?_, hprintable, hstart⟩
  rw [accepts_append (hrun k stack)]
  cases t with
  | nil => cases ht
  | cons c t =>
    have hstep : step (.inside (.number m) k stack) c =
        if m.ends then step (.inside .after k stack) c else none := by
      rw [step, insideStep, next_of_breaks ht]
      rfl
    rw [accepts_cons, accepts_cons, hstep]
    constructor
    · rintro ⟨state, hstate, h⟩
      split at hstate
      · rename_i hm
        exact ⟨hm, state, hstate, h⟩
      · cases hstate
    · rintro ⟨hm, state, hstate, h⟩
      rw [if_pos hm]
      exact ⟨state, hstate, h⟩

theorem string (hrun : ∀ k stack, run (.inside (.string false) k stack) a =
    some (.inside (.string false) k stack)) (hprintable : Printable a) :
    IsValue True (QUOTE :: a ++ [QUOTE]) := by
  have hquote : Printable [QUOTE] := by decide
  refine ⟨fun k stack t _ => ?_, ?_, QUOTE, _, rfl, by decide, by decide⟩
  · have hopen : run (.inside .value k stack) [QUOTE] =
        some (.inside (.string false) k stack) := rfl
    have hclose : run (.inside (.string false) k stack) [QUOTE] = some (.inside .after k stack) :=
      rfl
    have htext : QUOTE :: a ++ [QUOTE] ++ t = [QUOTE] ++ (a ++ ([QUOTE] ++ t)) := by
      rw [List.append_assoc]
      rfl
    rw [htext, accepts_append hopen, accepts_append (hrun k stack), accepts_append hclose, true_and]
  · exact Printable.append (a := QUOTE :: a) (hquote.append hprintable) hquote

theorem object (hlabel : isLabel OPEN_BRACE lit = true) (hvalue : IsValue True a)
    (h : ∀ k stack, Tail q (.inside .after .object (k :: stack)) b (.inside .after k stack)) :
    IsValue q (lit ++ (a ++ b)) := by
  refine ⟨fun k stack t _ => ?_, ?_, ?_⟩
  · rw [List.append_assoc, accepts_append (run_firstLabel hlabel), List.append_assoc,
      hvalue.accepts .object (k :: stack) _ (breaks_append (h k stack).breaks), true_and,
      (h k stack).accepts]
  · have hprintable := printable_label hlabel (by decide)
    exact hprintable.append (hvalue.printable.append (h .array []).printable)
  · obtain ⟨s, rfl, _⟩ := isLabel_iff.mp hlabel
    exact ⟨OPEN_BRACE, _, rfl, by decide, by decide⟩

theorem arrayObject (hrun : ∀ k stack, run (.inside .value k stack) (OPEN_BRACE :: lit) =
    some (.inside .first .array (.object :: k :: stack))) (hprintable : Printable lit)
    (hentries : IsEntries .array True a) (hclosing : b.head? = some CLOSE_BRACKET)
    (h : ∀ k stack,
      Tail q (.inside .after .array (.object :: k :: stack)) b (.inside .after k stack)) :
    IsValue q (OPEN_BRACE :: lit ++ (a ++ b)) := by
  have hbrace : Printable [OPEN_BRACE] := by decide
  refine ⟨fun k stack t _ => ?_, ?_, OPEN_BRACE, _, rfl, by decide, by decide⟩
  · have hhead : (b ++ t).head? = some CLOSE_BRACKET := by
      rw [List.head?_append, hclosing]
      rfl
    rw [List.append_assoc, accepts_append (hrun k stack), List.append_assoc,
      hentries.accepts (.object :: k :: stack) _ hhead, true_and, (h k stack).accepts]
  · exact (hbrace.append hprintable).append
      (hentries.printable.append (h .array []).printable)

theorem isEntry (h : IsValue p a) : IsEntry .array p a := by
  refine ⟨fun stack t ht => ?_, h.printable, h.start⟩
  obtain ⟨c, s, rfl, hc, _⟩ := h.start
  have hnext : step (.inside .next .array stack) c = step (.inside .value .array stack) c := by
    rw [step, step, insideStep, insideStep, if_neg hc, if_neg hc]
    rfl
  rw [← h.accepts .array stack t ht, List.cons_append, accepts_cons, accepts_cons, hnext]

end IsValue

theorem IsEntries.congr (h : IsEntries k p a) (hpq : p ↔ q) : IsEntries k q a := by
  rw [← propext hpq]
  exact h

/-- At the first place of a container an entry is read as after a comma. -/
theorem IsEntry.first (h : IsEntry k p a) (hb : breaks b = true) :
    Accepts (.inside .first k stack) (a ++ b) ↔ p ∧ Accepts (.inside .after k stack) b := by
  obtain ⟨c, s, rfl, hc, hclosing⟩ := h.start
  have hfirst : step (.inside .first k stack) c = step (.inside .next k stack) c := by
    rw [step, step, insideStep, insideStep, if_neg hc, if_neg hc, if_neg hclosing]
  rw [← h.accepts stack b hb, List.cons_append, accepts_cons, accepts_cons, hfirst]

theorem accepts_first_closing (h : b.head? = some k.closing) :
    Accepts (.inside .first k stack) b ↔ Accepts (.inside .after k stack) b := by
  cases b with
  | nil => cases h
  | cons c b =>
    cases h
    have hstep : step (.inside .first k stack) k.closing =
        step (.inside .after k stack) k.closing := by
      rw [step, step, insideStep, insideStep, afterStep, if_neg (not_isSpace_closing k),
        if_neg (not_isSpace_closing k), if_pos rfl, if_neg (closing_ne_comma k), if_pos rfl]
    rw [accepts_cons, accepts_cons, hstep]

theorem breaks_of_closing (h : b.head? = some k.closing) : breaks b = true := by
  cases b with
  | nil => cases h
  | cons c b =>
    cases h
    cases k <;> rfl

end Json
