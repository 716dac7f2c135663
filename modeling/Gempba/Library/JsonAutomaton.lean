import Gempba.Library.Json
import Mathlib.Data.Bool.AllAny

/-!
# An automaton for JSON texts

It reads one byte at a time and keeps a stack of the containers that are open.
What it accepts from a state is what the grammar allows from there, so that it
accepts the texts that are one object.
-/

namespace Json

set_option autoImplicit false

inductive Container where
  | object
  | array
  deriving DecidableEq

def Container.opening : Container → UInt8
  | .object => OPEN_BRACE
  | .array => OPEN_BRACKET

def Container.closing : Container → UInt8
  | .object => CLOSE_BRACE
  | .array => CLOSE_BRACKET

/-- What the last byte of a number was. -/
inductive NumberMode where
  | minus
  | zero
  | integer
  | point
  | fraction
  | mark
  | sign
  | exponent
  deriving DecidableEq

namespace NumberMode

/-- How a number goes on with a byte. -/
def next : NumberMode → UInt8 → Option NumberMode
  | .minus, c => if c = 0x30 then some .zero else if IsDigit c then some .integer else none
  | .zero, c => if c = POINT then some .point else if c ∈ bytes "eE" then some .mark else none
  | .integer, c =>
    if IsDigit c then some .integer
    else if c = POINT then some .point
    else if c ∈ bytes "eE" then some .mark else none
  | .point, c => if IsDigit c then some .fraction else none
  | .fraction, c =>
    if IsDigit c then some .fraction else if c ∈ bytes "eE" then some .mark else none
  | .mark, c => if IsDigit c then some .exponent else if c ∈ bytes "+-" then some .sign else none
  | .sign, c => if IsDigit c then some .exponent else none
  | .exponent, c => if IsDigit c then some .exponent else none

/-- The number may end here. -/
def ends : NumberMode → Bool
  | .zero | .integer | .fraction | .exponent => true
  | .minus | .point | .mark | .sign => false

end NumberMode

/-- What is read in the innermost container: `first` comes after its opening, `next` after a
comma; `hex` has the number of digits that follow the next one. -/
inductive Mode where
  | first
  | next
  | colon
  | value
  | after
  | string (isKey : Bool)
  | escape (isKey : Bool)
  | hex (isKey : Bool) (left : ℕ)
  | word (rest : List UInt8)
  | number (m : NumberMode)
  deriving DecidableEq

/-- Before the object of the text, after it, or in a container inside others. -/
inductive State where
  | text
  | done
  | inside (m : Mode) (k : Container) (stack : List Container)
  deriving DecidableEq

/-- A container has ended. -/
def State.pop : List Container → State
  | [] => .done
  | k :: stack => .inside .after k stack

def afterStep (k : Container) (stack : List Container) (c : UInt8) : Option State :=
  if IsSpace c then some (.inside .after k stack)
  else if c = COMMA then some (.inside .next k stack)
  else if c = k.closing then some (.pop stack) else none

/-- How a value that is no container starts. -/
def startMode (c : UInt8) : Option Mode :=
  if c = QUOTE then some (.string false)
  else if c = MINUS then some (.number .minus)
  else if c = 0x30 then some (.number .zero)
  else if IsDigit c then some (.number .integer)
  else if c = 0x6E then some (.word (bytes "ull"))
  else if c = 0x74 then some (.word (bytes "rue"))
  else if c = 0x66 then some (.word (bytes "alse")) else none

def startStep (k : Container) (stack : List Container) (c : UInt8) : Option State :=
  if c = OPEN_BRACE then some (.inside .first .object (k :: stack))
  else if c = OPEN_BRACKET then some (.inside .first .array (k :: stack))
  else (startMode c).map fun m => .inside m k stack

/-- An element of an array or a key of an object starts. -/
def entryStep : Container → List Container → UInt8 → Option State
  | .object, stack, c => if c = QUOTE then some (.inside (.string true) .object stack) else none
  | .array, stack, c => startStep .array stack c

def stringEnd (isKey : Bool) : Mode := if isKey then .colon else .after

def hexEnd (isKey : Bool) : ℕ → Mode
  | 0 => .string isKey
  | left + 1 => .hex isKey left

def insideStep : Mode → Container → List Container → UInt8 → Option State
  | .first, k, stack, c =>
    if IsSpace c then some (.inside .first k stack)
    else if c = k.closing then some (.pop stack) else entryStep k stack c
  | .next, k, stack, c =>
    if IsSpace c then some (.inside .next k stack) else entryStep k stack c
  | .colon, k, stack, c =>
    if IsSpace c then some (.inside .colon k stack)
    else if c = COLON then some (.inside .value k stack) else none
  | .value, k, stack, c =>
    if IsSpace c then some (.inside .value k stack) else startStep k stack c
  | .after, k, stack, c => afterStep k stack c
  | .string isKey, k, stack, c =>
    if c = QUOTE then some (.inside (stringEnd isKey) k stack)
    else if c = BACKSLASH then some (.inside (.escape isKey) k stack)
    else if c < 0x20 then none else some (.inside (.string isKey) k stack)
  | .escape isKey, k, stack, c =>
    if IsShortEscape c then some (.inside (.string isKey) k stack)
    else if c = 0x75 then some (.inside (.hex isKey 3) k stack) else none
  | .hex isKey left, k, stack, c =>
    if IsHexDigit c then some (.inside (hexEnd isKey left) k stack) else none
  | .word [], k, stack, c => afterStep k stack c
  | .word (d :: rest), k, stack, c => if c = d then some (.inside (.word rest) k stack) else none
  | .number m, k, stack, c =>
    (m.next c).elim (if m.ends then afterStep k stack c else none) fun m' =>
      some (.inside (.number m') k stack)

def step : State → UInt8 → Option State
  | .text, c =>
    if IsSpace c then some .text
    else if c = OPEN_BRACE then some (.inside .first .object []) else none
  | .done, c => if IsSpace c then some .done else none
  | .inside m k stack, c => insideStep m k stack c

def run (state : State) (s : List UInt8) : Option State := s.foldlM step state

def Accepts (state : State) (s : List UInt8) : Prop := run state s = some .done

instance (state : State) (s : List UInt8) : Decidable (Accepts state s) :=
  inferInstanceAs (Decidable (_ = _))

/-! What the grammar allows from a state on. -/

/-- The entries of a container, up to the text after its closing. -/
def Entries : Container → List UInt8 → List UInt8 → Prop
  | .object, s, t => ∃ ms, Members s ms (CLOSE_BRACE :: t)
  | .array, s, t => Elements s (CLOSE_BRACKET :: t)

def Opened (k : Container) (s t : List UInt8) : Prop :=
  Spaces s (k.closing :: t) ∨ Entries k s t

def Following (k : Container) (s t : List UInt8) : Prop :=
  Spaces s (k.closing :: t) ∨ ∃ u, Spaces s (COMMA :: u) ∧ Entries k u t

/-- What may follow an entry in the containers that are open. -/
def Rest : List Container → List UInt8 → Prop
  | [], s => Spaces s []
  | k :: stack, s => ∃ t, Following k s t ∧ Rest stack t

def ValuePhrase (s t : List UInt8) : Prop := ∃ u, Spaces s u ∧ Value u t

def ColonPhrase (s t : List UInt8) : Prop := ∃ u, Spaces s (COLON :: u) ∧ ValuePhrase u t

def StringEnd : Bool → List UInt8 → List UInt8 → Prop
  | true, s, t => ColonPhrase s t
  | false, s, t => s = t

def StringPhrase (isKey : Bool) (s t : List UInt8) : Prop :=
  ∃ u, Chars s u ∧ StringEnd isKey u t

def HexPhrase (isKey : Bool) (n : ℕ) (s t : List UInt8) : Prop :=
  ∃ digits u, digits.length = n ∧ (∀ d ∈ digits, IsHexDigit d) ∧ s = digits ++ u ∧
    StringPhrase isKey u t

def EscapePhrase (isKey : Bool) (s t : List UInt8) : Prop :=
  (∃ c u, IsShortEscape c ∧ s = c :: u ∧ StringPhrase isKey u t) ∨
    ∃ u, s = 0x75 :: u ∧ HexPhrase isKey 4 u t

def EntryPhrase : Container → List UInt8 → List UInt8 → Prop
  | .object, s, t => ∃ u, Spaces s (QUOTE :: u) ∧ StringPhrase true u t
  | .array, s, t => ValuePhrase s t

def NumberPhrase : NumberMode → List UInt8 → List UInt8 → Prop
  | .minus, s, t => Unsigned s t
  | .zero, s, t => ∃ u, Fraction s u ∧ Exponent u t
  | .integer, s, t => ∃ u v, (u = s ∨ Digits s u) ∧ Fraction u v ∧ Exponent v t
  | .point, s, t => ∃ u, Digits s u ∧ Exponent u t
  | .fraction, s, t => ∃ u, (u = s ∨ Digits s u) ∧ Exponent u t
  | .mark, s, t => Digits s t ∨ ∃ sign u, sign ∈ bytes "+-" ∧ s = sign :: u ∧ Digits u t
  | .sign, s, t => Digits s t
  | .exponent, s, t => t = s ∨ Digits s t

/-- The rest of the entry that is read, without the spaces after it. -/
def Phrase : Mode → Container → List UInt8 → List UInt8 → Prop
  | .first, _, _, _ => False
  | .next, k, s, t => EntryPhrase k s t
  | .colon, _, s, t => ColonPhrase s t
  | .value, _, s, t => ValuePhrase s t
  | .after, _, s, t => s = t
  | .string isKey, _, s, t => StringPhrase isKey s t
  | .escape isKey, _, s, t => EscapePhrase isKey s t
  | .hex isKey left, _, s, t => HexPhrase isKey (left + 1) s t
  | .word rest, _, s, t => s = rest ++ t
  | .number m, _, s, t => NumberPhrase m s t

def Allowed : State → List UInt8 → Prop
  | .text, s => ∃ t u, Spaces s (OPEN_BRACE :: t) ∧ Opened .object t u ∧ Spaces u []
  | .done, s => Spaces s []
  | .inside m k stack, s =>
    (m = .first ∧ ∃ t, Opened k s t ∧ Rest stack t) ∨ ∃ t, Phrase m k s t ∧ Rest (k :: stack) t

/-- What the grammar allows after one more byte. -/
def Leads (next : Option State) (s : List UInt8) : Prop :=
  ∃ state, next = some state ∧ Allowed state s

section Leads

variable {k : Container} {stack : List Container} {c : UInt8} {s t : List UInt8}

theorem leads_none : ¬ Leads none s := by
  rintro ⟨state, h, _⟩
  cases h

theorem leads_some {state : State} : Leads (some state) s ↔ Allowed state s := by
  constructor
  · rintro ⟨_, h, hallowed⟩
    cases h
    exact hallowed
  · exact fun h => ⟨state, rfl, h⟩

theorem leads_ite {p : Prop} [Decidable p] {x y : Option State} :
    Leads (if p then x else y) s ↔ (p ∧ Leads x s) ∨ (¬ p ∧ Leads y s) := by
  split
  · rename_i hp
    simp only [hp, true_and, not_true_eq_false, false_and, or_false]
  · rename_i hp
    simp only [hp, false_and, not_false_eq_true, true_and, false_or]

/-! Spaces. -/

theorem spaces_nil_iff : Spaces [] t ↔ t = [] := by
  constructor
  · intro h
    cases h
    rfl
  · rintro rfl
    exact .nil _

theorem spaces_cons_iff : Spaces (c :: s) t ↔ t = c :: s ∨ (IsSpace c ∧ Spaces s t) := by
  constructor
  · intro h
    cases h with
    | nil => exact Or.inl rfl
    | cons hc h => exact Or.inr ⟨hc, h⟩
  · rintro (rfl | ⟨hc, h⟩)
    · exact .nil _
    · exact .cons hc h

theorem not_isSpace_closing (k : Container) : ¬ IsSpace k.closing := by
  cases k <;> decide

theorem closing_ne_comma (k : Container) : k.closing ≠ COMMA := by
  cases k <;> decide

/-! After an entry. -/

theorem members_iff : (∃ ms, Members s ms (CLOSE_BRACE :: t)) ↔
    ∃ u, EntryPhrase .object s u ∧ Following .object u t := by
  constructor
  · rintro ⟨ms, h⟩
    cases h with
    | one h =>
      cases h with
      | mk hbefore hkey hcolon hvalue h hafter =>
        exact ⟨_, ⟨_, hbefore, _, hkey, _, hcolon, _, hvalue, h⟩, Or.inl hafter⟩
    | cons h hs =>
      cases h with
      | mk hbefore hkey hcolon hvalue h hafter =>
        exact ⟨_, ⟨_, hbefore, _, hkey, _, hcolon, _, hvalue, h⟩, Or.inr ⟨_, hafter, _, hs⟩⟩
  · rintro ⟨rest, ⟨key, hbefore, keyEnd, hkey, colon, hcolon, value, hvalue, h⟩,
      hafter | ⟨u, hafter, ms, hs⟩⟩
    · exact ⟨_, .one (.mk hbefore hkey hcolon hvalue h hafter)⟩
    · exact ⟨_, .cons (.mk hbefore hkey hcolon hvalue h hafter) hs⟩

theorem elements_iff : Elements s (CLOSE_BRACKET :: t) ↔
    ∃ u, EntryPhrase .array s u ∧ Following .array u t := by
  constructor
  · intro h
    cases h with
    | one h =>
      cases h with
      | mk hbefore h hafter => exact ⟨_, ⟨_, hbefore, h⟩, Or.inl hafter⟩
    | cons h hs =>
      cases h with
      | mk hbefore h hafter => exact ⟨_, ⟨_, hbefore, h⟩, Or.inr ⟨_, hafter, hs⟩⟩
  · rintro ⟨rest, ⟨value, hbefore, h⟩, hafter | ⟨u, hafter, hs⟩⟩
    · exact .one (.mk hbefore h hafter)
    · exact .cons (.mk hbefore h hafter) hs

theorem entries_iff : Entries k s t ↔ ∃ u, EntryPhrase k s u ∧ Following k u t := by
  cases k with
  | object => exact members_iff
  | array => exact elements_iff

theorem allowed_pop : Allowed (.pop stack) s ↔ Rest stack s := by
  cases stack with
  | nil => exact Iff.rfl
  | cons k stack =>
    constructor
    · rintro (⟨h, _⟩ | ⟨t, rfl, h⟩)
      · cases h
      · exact h
    · exact fun h => Or.inr ⟨s, rfl, h⟩

theorem allowed_after : Allowed (.inside .after k stack) s ↔ Rest (k :: stack) s := by
  show Allowed (.pop (k :: stack)) s ↔ _
  exact allowed_pop

theorem allowed_first : Allowed (.inside .first k stack) s ↔ ∃ t, Opened k s t ∧ Rest stack t := by
  constructor
  · rintro (⟨_, h⟩ | ⟨t, h, _⟩)
    · exact h
    · cases h
  · exact fun h => Or.inl ⟨rfl, h⟩

theorem allowed_inside {m : Mode} (hm : m ≠ .first) :
    Allowed (.inside m k stack) s ↔ ∃ t, Phrase m k s t ∧ Rest (k :: stack) t := by
  constructor
  · rintro (⟨h, _⟩ | h)
    · exact absurd h hm
    · exact h
  · exact Or.inr

theorem allowed_next : Allowed (.inside .next k stack) s ↔ ∃ t, Entries k s t ∧ Rest stack t := by
  rw [allowed_inside (by decide)]
  constructor
  · rintro ⟨t, h, u, hfollowing, hrest⟩
    exact ⟨u, entries_iff.mpr ⟨t, h, hfollowing⟩, hrest⟩
  · rintro ⟨u, h, hrest⟩
    obtain ⟨t, h, hfollowing⟩ := entries_iff.mp h
    exact ⟨t, h, u, hfollowing, hrest⟩

theorem not_rest_nil : ¬ Rest (k :: stack) [] := by
  rintro ⟨t, h | ⟨u, h, _⟩, _⟩
  · cases spaces_nil_iff.mp h
  · cases spaces_nil_iff.mp h

theorem following_cons : Following k (c :: s) t ↔ (IsSpace c ∧ Following k s t) ∨
    (c = COMMA ∧ Entries k s t) ∨ (c = k.closing ∧ s = t) := by
  constructor
  · rintro (h | ⟨u, h, hs⟩)
    · obtain h | ⟨hc, h⟩ := spaces_cons_iff.mp h
      · cases h
        exact Or.inr (Or.inr ⟨rfl, rfl⟩)
      · exact Or.inl ⟨hc, Or.inl h⟩
    · obtain h | ⟨hc, h⟩ := spaces_cons_iff.mp h
      · cases h
        exact Or.inr (Or.inl ⟨rfl, hs⟩)
      · exact Or.inl ⟨hc, Or.inr ⟨u, h, hs⟩⟩
  · rintro (⟨hc, h | ⟨u, h, hs⟩⟩ | ⟨rfl, hs⟩ | ⟨rfl, rfl⟩)
    · exact Or.inl (.cons hc h)
    · exact Or.inr ⟨u, .cons hc h, hs⟩
    · exact Or.inr ⟨s, .nil _, hs⟩
    · exact Or.inl (.nil _)

theorem leads_afterStep : Leads (afterStep k stack c) s ↔ Rest (k :: stack) (c :: s) := by
  have hcomma : ¬ IsSpace COMMA := by decide
  rw [afterStep, leads_ite, leads_ite, leads_ite, leads_some, leads_some, leads_some,
    allowed_after, allowed_next, allowed_pop]
  constructor
  · rintro (⟨hc, t, h, hrest⟩ | ⟨_, ⟨rfl, t, h, hrest⟩ | ⟨_, ⟨rfl, hrest⟩ | ⟨_, h⟩⟩⟩)
    · exact ⟨t, following_cons.mpr (Or.inl ⟨hc, h⟩), hrest⟩
    · exact ⟨t, following_cons.mpr (Or.inr (Or.inl ⟨rfl, h⟩)), hrest⟩
    · exact ⟨s, following_cons.mpr (Or.inr (Or.inr ⟨rfl, rfl⟩)), hrest⟩
    · exact absurd h leads_none
  · rintro ⟨t, h, hrest⟩
    obtain ⟨hc, hs⟩ | ⟨rfl, hs⟩ | ⟨rfl, rfl⟩ := following_cons.mp h
    · exact Or.inl ⟨hc, t, hs, hrest⟩
    · exact Or.inr ⟨hcomma, Or.inl ⟨rfl, t, hs, hrest⟩⟩
    · exact Or.inr ⟨not_isSpace_closing k, Or.inr ⟨closing_ne_comma k, Or.inl ⟨rfl, hrest⟩⟩⟩

/-! Numbers. -/

theorem digits_cons_iff : Digits (c :: s) t ↔ IsDigit c ∧ (t = s ∨ Digits s t) := by
  constructor
  · intro h
    cases h with
    | one _ hc => exact ⟨hc, Or.inl rfl⟩
    | cons hc h => exact ⟨hc, Or.inr h⟩
  · rintro ⟨hc, rfl | h⟩
    · exact .one _ hc
    · exact .cons hc h

theorem not_digits_nil : ¬ Digits [] t := by
  intro h
  cases h

theorem fraction_iff : Fraction s t ↔ t = s ∨ ∃ u, s = POINT :: u ∧ Digits u t := by
  constructor
  · intro h
    cases h with
    | none => exact Or.inl rfl
    | digits h => exact Or.inr ⟨_, rfl, h⟩
  · rintro (rfl | ⟨u, rfl, h⟩)
    · exact .none _
    · exact .digits h

theorem exponent_iff : Exponent s t ↔
    t = s ∨ ∃ e u, e ∈ bytes "eE" ∧ s = e :: u ∧ NumberPhrase .mark u t := by
  constructor
  · intro h
    cases h with
    | none => exact Or.inl rfl
    | digits he h => exact Or.inr ⟨_, _, he, rfl, Or.inl h⟩
    | signed he hsign h => exact Or.inr ⟨_, _, he, rfl, Or.inr ⟨_, _, hsign, rfl, h⟩⟩
  · rintro (rfl | ⟨e, u, he, rfl, h | ⟨sign, v, hsign, rfl, h⟩⟩)
    · exact .none _
    · exact .digits he h
    · exact .signed he hsign h

theorem unsigned_cons_iff : Unsigned (c :: s) t ↔ (c = 0x30 ∧ NumberPhrase .zero s t) ∨
    (IsDigit c ∧ c ≠ 0x30 ∧ NumberPhrase .integer s t) := by
  constructor
  · rintro ⟨hint, hfraction, hexponent⟩
    cases hint with
    | zero => exact Or.inl ⟨rfl, _, hfraction, hexponent⟩
    | digit _ hc hzero => exact Or.inr ⟨hc, hzero, _, _, Or.inl rfl, hfraction, hexponent⟩
    | digits hc hzero h => exact Or.inr ⟨hc, hzero, _, _, Or.inr h, hfraction, hexponent⟩
  · rintro (⟨rfl, u, hfraction, hexponent⟩ | ⟨hc, hzero, u, v, rfl | h, hfraction, hexponent⟩)
    · exact ⟨.zero _, hfraction, hexponent⟩
    · exact ⟨.digit _ hc hzero, hfraction, hexponent⟩
    · exact ⟨.digits hc hzero h, hfraction, hexponent⟩

/-- The modes in which a number may go on with an exponent. -/
theorem next_mark {m : NumberMode} (hm : m = .zero ∨ m = .integer ∨ m = .fraction)
    (hc : c ∈ bytes "eE") : m.next c = some .mark := by
  obtain rfl | rfl | rfl := hm
  all_goals
    obtain rfl | hc := List.mem_cons.mp hc
    · rfl
    · rw [List.mem_singleton.mp hc]
      rfl

theorem exponent_cons {m : NumberMode} (hm : m = .zero ∨ m = .integer ∨ m = .fraction)
    (h : Exponent (c :: s) t) :
    t = c :: s ∨ ∃ m', m.next c = some m' ∧ NumberPhrase m' s t := by
  obtain h | ⟨e, u, he, hs, h⟩ := exponent_iff.mp h
  · exact Or.inl h
  · cases hs
    exact Or.inr ⟨.mark, next_mark hm he, h⟩

theorem numberPhrase_next {m m' : NumberMode} (hnext : m.next c = some m')
    (h : NumberPhrase m' s t) : NumberPhrase m (c :: s) t := by
  cases m with
  | minus =>
    rw [NumberMode.next] at hnext
    split at hnext
    · rename_i hc
      cases hnext
      exact unsigned_cons_iff.mpr (Or.inl ⟨hc, h⟩)
    · rename_i hzero
      split at hnext
      · rename_i hc
        cases hnext
        exact unsigned_cons_iff.mpr (Or.inr ⟨hc, hzero, h⟩)
      · cases hnext
  | zero =>
    rw [NumberMode.next] at hnext
    split at hnext
    · rename_i hc
      cases hnext
      obtain ⟨u, hdigits, hexponent⟩ := h
      exact ⟨u, fraction_iff.mpr (Or.inr ⟨s, congrArg (· :: s) hc, hdigits⟩), hexponent⟩
    · split at hnext
      · rename_i hc
        cases hnext
        exact ⟨c :: s, .none _, exponent_iff.mpr (Or.inr ⟨c, s, hc, rfl, h⟩)⟩
      · cases hnext
  | integer =>
    rw [NumberMode.next] at hnext
    split at hnext
    · rename_i hc
      cases hnext
      obtain ⟨u, v, hu, hfraction, hexponent⟩ := h
      exact ⟨u, v, Or.inr (digits_cons_iff.mpr ⟨hc, hu⟩), hfraction, hexponent⟩
    · split at hnext
      · rename_i hc
        cases hnext
        obtain ⟨u, hdigits, hexponent⟩ := h
        have hfraction : Fraction (c :: s) u :=
          fraction_iff.mpr (Or.inr ⟨s, congrArg (· :: s) hc, hdigits⟩)
        exact ⟨_, u, Or.inl rfl, hfraction, hexponent⟩
      · split at hnext
        · rename_i hc
          cases hnext
          have hexponent : Exponent (c :: s) t := exponent_iff.mpr (Or.inr ⟨c, s, hc, rfl, h⟩)
          exact ⟨_, _, Or.inl rfl, .none _, hexponent⟩
        · cases hnext
  | point =>
    rw [NumberMode.next] at hnext
    split at hnext
    · rename_i hc
      cases hnext
      obtain ⟨u, hu, hexponent⟩ := h
      exact ⟨u, digits_cons_iff.mpr ⟨hc, hu⟩, hexponent⟩
    · cases hnext
  | fraction =>
    rw [NumberMode.next] at hnext
    split at hnext
    · rename_i hc
      cases hnext
      obtain ⟨u, hu, hexponent⟩ := h
      exact ⟨u, Or.inr (digits_cons_iff.mpr ⟨hc, hu⟩), hexponent⟩
    · split at hnext
      · rename_i hc
        cases hnext
        exact ⟨_, Or.inl rfl, exponent_iff.mpr (Or.inr ⟨c, s, hc, rfl, h⟩)⟩
      · cases hnext
  | mark =>
    rw [NumberMode.next] at hnext
    split at hnext
    · rename_i hc
      cases hnext
      exact Or.inl (digits_cons_iff.mpr ⟨hc, h⟩)
    · split at hnext
      · rename_i hc
        cases hnext
        exact Or.inr ⟨c, s, hc, rfl, h⟩
      · cases hnext
  | sign =>
    rw [NumberMode.next] at hnext
    split at hnext
    · rename_i hc
      cases hnext
      exact digits_cons_iff.mpr ⟨hc, h⟩
    · cases hnext
  | exponent =>
    rw [NumberMode.next] at hnext
    split at hnext
    · rename_i hc
      cases hnext
      exact Or.inr (digits_cons_iff.mpr ⟨hc, h⟩)
    · cases hnext

theorem numberPhrase_ends {m : NumberMode} (hm : m.ends = true) : NumberPhrase m s s := by
  cases m with
  | minus => cases hm
  | zero => exact ⟨s, .none _, .none _⟩
  | integer => exact ⟨s, s, Or.inl rfl, .none _, .none _⟩
  | point => cases hm
  | fraction => exact ⟨s, Or.inl rfl, .none _⟩
  | mark => cases hm
  | sign => cases hm
  | exponent => exact Or.inl rfl

theorem numberPhrase_cons {m : NumberMode} (h : NumberPhrase m (c :: s) t) :
    (∃ m', m.next c = some m' ∧ NumberPhrase m' s t) ∨ (m.ends = true ∧ t = c :: s) := by
  cases m with
  | minus =>
    obtain ⟨rfl, hs⟩ | ⟨hc, hzero, hs⟩ := unsigned_cons_iff.mp h
    · exact Or.inl ⟨.zero, rfl, hs⟩
    · refine Or.inl ⟨.integer, ?_, hs⟩
      rw [NumberMode.next, if_neg hzero, if_pos hc]
  | zero =>
    obtain ⟨u, hfraction, hexponent⟩ := h
    obtain rfl | ⟨v, hs, hdigits⟩ := fraction_iff.mp hfraction
    · obtain h | h := exponent_cons (Or.inl rfl) hexponent
      · exact Or.inr ⟨rfl, h⟩
      · exact Or.inl h
    · cases hs
      exact Or.inl ⟨.point, rfl, u, hdigits, hexponent⟩
  | integer =>
    obtain ⟨u, v, rfl | hdigits, hfraction, hexponent⟩ := h
    · obtain rfl | ⟨w, hs, hdigits⟩ := fraction_iff.mp hfraction
      · obtain h | h := exponent_cons (Or.inr (Or.inl rfl)) hexponent
        · exact Or.inr ⟨rfl, h⟩
        · exact Or.inl h
      · cases hs
        exact Or.inl ⟨.point, rfl, v, hdigits, hexponent⟩
    · obtain ⟨hc, hu⟩ := digits_cons_iff.mp hdigits
      exact Or.inl ⟨.integer, if_pos hc, u, v, hu, hfraction, hexponent⟩
  | point =>
    obtain ⟨u, hdigits, hexponent⟩ := h
    obtain ⟨hc, hu⟩ := digits_cons_iff.mp hdigits
    exact Or.inl ⟨.fraction, if_pos hc, u, hu, hexponent⟩
  | fraction =>
    obtain ⟨u, rfl | hdigits, hexponent⟩ := h
    · obtain h | h := exponent_cons (Or.inr (Or.inr rfl)) hexponent
      · exact Or.inr ⟨rfl, h⟩
      · exact Or.inl h
    · obtain ⟨hc, hu⟩ := digits_cons_iff.mp hdigits
      exact Or.inl ⟨.fraction, if_pos hc, u, hu, hexponent⟩
  | mark =>
    obtain h | ⟨sign, u, hsign, hs, h⟩ := h
    · obtain ⟨hc, hu⟩ := digits_cons_iff.mp h
      exact Or.inl ⟨.exponent, if_pos hc, hu⟩
    · cases hs
      have hdigit : ¬ IsDigit c := by
        obtain rfl | hsign := List.mem_cons.mp hsign
        · decide
        · rw [List.mem_singleton.mp hsign]
          decide
      refine Or.inl ⟨.sign, ?_, h⟩
      rw [NumberMode.next, if_neg hdigit, if_pos hsign]
  | sign =>
    obtain ⟨hc, hu⟩ := digits_cons_iff.mp h
    exact Or.inl ⟨.exponent, if_pos hc, hu⟩
  | exponent =>
    obtain rfl | h := h
    · exact Or.inr ⟨rfl, rfl⟩
    · obtain ⟨hc, hu⟩ := digits_cons_iff.mp h
      exact Or.inl ⟨.exponent, if_pos hc, hu⟩

theorem numberPhrase_nil {m : NumberMode} (h : NumberPhrase m [] t) : t = [] := by
  cases m with
  | minus =>
    obtain ⟨hint, _, _⟩ := h
    cases hint
  | zero =>
    obtain ⟨u, hfraction, hexponent⟩ := h
    cases hfraction
    cases hexponent
    rfl
  | integer =>
    obtain ⟨u, v, rfl | hdigits, hfraction, hexponent⟩ := h
    · cases hfraction
      cases hexponent
      rfl
    · exact absurd hdigits not_digits_nil
  | point =>
    obtain ⟨u, hdigits, _⟩ := h
    exact absurd hdigits not_digits_nil
  | fraction =>
    obtain ⟨u, rfl | hdigits, hexponent⟩ := h
    · cases hexponent
      rfl
    · exact absurd hdigits not_digits_nil
  | mark =>
    obtain h | ⟨sign, u, _, hs, _⟩ := h
    · exact absurd h not_digits_nil
    · cases hs
  | sign => exact absurd h not_digits_nil
  | exponent =>
    obtain rfl | h := h
    · rfl
    · exact absurd h not_digits_nil

/-- What ends an entry goes on with no number. -/
theorem next_of_rest {m : NumberMode} (h : Rest (k :: stack) (c :: s)) : m.next c = none := by
  have hc : c ∈ [0x20, 0x09, 0x0A, 0x0D, COMMA, CLOSE_BRACE, CLOSE_BRACKET] := by
    obtain ⟨t, h, _⟩ := h
    obtain ⟨hc, _⟩ | ⟨rfl, _⟩ | ⟨rfl, _⟩ := following_cons.mp h
    · exact List.mem_append_left _ hc
    · decide
    · cases k <;> decide
  have hall : ∀ c ∈ [0x20, 0x09, 0x0A, 0x0D, COMMA, CLOSE_BRACE, CLOSE_BRACKET],
      ∀ m ∈ [NumberMode.minus, .zero, .integer, .point, .fraction, .mark, .sign, .exponent],
        m.next c = none := List.all_iff_forall_prop.mp (by decide)
  apply hall c hc
  cases m <;> decide

theorem allowed_number {m : NumberMode} : Allowed (.inside (.number m) k stack) s ↔
    ∃ t, NumberPhrase m s t ∧ Rest (k :: stack) t := by
  apply allowed_inside
  intro h
  cases h

theorem leads_number {m : NumberMode} :
    Leads (insideStep (.number m) k stack c) s ↔
      ∃ t, NumberPhrase m (c :: s) t ∧ Rest (k :: stack) t := by
  constructor
  · rintro ⟨state, hstep, hallowed⟩
    rw [insideStep] at hstep
    cases hnext : m.next c with
    | none =>
      rw [hnext, Option.elim_none] at hstep
      split at hstep
      · rename_i hm
        exact ⟨c :: s, numberPhrase_ends hm, leads_afterStep.mp ⟨state, hstep, hallowed⟩⟩
      · cases hstep
    | some m' =>
      rw [hnext, Option.elim_some] at hstep
      cases hstep
      obtain ⟨t, h, hrest⟩ := allowed_number.mp hallowed
      exact ⟨t, numberPhrase_next hnext h, hrest⟩
  · rintro ⟨t, h, hrest⟩
    obtain ⟨m', hnext, h⟩ | ⟨hm, rfl⟩ := numberPhrase_cons h
    · rw [insideStep, hnext]
      exact leads_some.mpr (allowed_number.mpr ⟨t, h, hrest⟩)
    · rw [insideStep, next_of_rest hrest, Option.elim_none, if_pos hm]
      exact leads_afterStep.mpr hrest

/-! Values. -/

theorem startMode_digit (hc : IsDigit c) (hzero : c ≠ 0x30) :
    startMode c = some (.number .integer) := by
  have hquote : c ≠ QUOTE := by
    rintro rfl
    revert hc
    decide
  have hminus : c ≠ MINUS := by
    rintro rfl
    revert hc
    decide
  rw [startMode, if_neg hquote, if_neg hminus, if_neg hzero, if_pos hc]

theorem value_cons (h : Value (c :: s) t) :
    (c = OPEN_BRACE ∧ Opened .object s t) ∨ (c = OPEN_BRACKET ∧ Opened .array s t) ∨
      ∃ m, startMode c = some m ∧ Phrase m k s t := by
  generalize hu : c :: s = u at h
  cases h with
  | null =>
    cases hu
    exact Or.inr (Or.inr ⟨_, rfl, rfl⟩)
  | true =>
    cases hu
    exact Or.inr (Or.inr ⟨_, rfl, rfl⟩)
  | false =>
    cases hu
    exact Or.inr (Or.inr ⟨_, rfl, rfl⟩)
  | number h =>
    cases h with
    | positive h =>
      cases hu
      obtain ⟨rfl, hs⟩ | ⟨hc, hzero, hs⟩ := unsigned_cons_iff.mp h
      · exact Or.inr (Or.inr ⟨.number .zero, rfl, hs⟩)
      · exact Or.inr (Or.inr ⟨_, startMode_digit hc hzero, hs⟩)
    | negative h =>
      cases hu
      exact Or.inr (Or.inr ⟨.number .minus, rfl, h⟩)
  | string h =>
    cases hu
    exact Or.inr (Or.inr ⟨.string false, rfl, t, h, rfl⟩)
  | emptyArray h =>
    cases hu
    exact Or.inr (Or.inl ⟨rfl, Or.inl h⟩)
  | array h =>
    cases hu
    exact Or.inr (Or.inl ⟨rfl, Or.inr h⟩)
  | emptyObject h =>
    cases hu
    exact Or.inl ⟨rfl, Or.inl h⟩
  | object h =>
    cases hu
    exact Or.inl ⟨rfl, Or.inr ⟨_, h⟩⟩

theorem value_start {m : Mode} (hm : startMode c = some m) (h : Phrase m k s t) :
    Value (c :: s) t := by
  rw [startMode] at hm
  split at hm
  · rename_i hc
    cases hm
    obtain ⟨u, h, rfl⟩ := h
    rw [hc]
    exact .string h
  split at hm
  · rename_i hc
    cases hm
    rw [hc]
    exact .number (.negative h)
  split at hm
  · rename_i hc
    cases hm
    exact .number (.positive (unsigned_cons_iff.mpr (Or.inl ⟨hc, h⟩)))
  split at hm
  · rename_i hzero hc
    cases hm
    exact .number (.positive (unsigned_cons_iff.mpr (Or.inr ⟨hc, hzero, h⟩)))
  split at hm
  · rename_i hc
    cases hm
    rw [hc, show s = bytes "ull" ++ t from h]
    exact .null t
  split at hm
  · rename_i hc
    cases hm
    rw [hc, show s = bytes "rue" ++ t from h]
    exact .true t
  split at hm
  · rename_i hc
    cases hm
    rw [hc, show s = bytes "alse" ++ t from h]
    exact .false t
  cases hm

theorem value_opened (h : Opened k s t) : Value (k.opening :: s) t := by
  cases k with
  | object =>
    obtain h | ⟨ms, h⟩ := h
    · exact .emptyObject h
    · exact .object h
  | array =>
    obtain h | h := h
    · exact .emptyArray h
    · exact .array h

theorem startMode_ne_first {m : Mode} (hm : startMode c = some m) : m ≠ .first := by
  rintro rfl
  revert hm
  rw [startMode]
  repeat' split
  all_goals
    intro hm
    cases hm

theorem leads_startStep : Leads (startStep k stack c) s ↔
    ∃ t, Value (c :: s) t ∧ Rest (k :: stack) t := by
  have hbracket : OPEN_BRACKET ≠ OPEN_BRACE := by decide
  rw [startStep, leads_ite, leads_ite, leads_some, leads_some, allowed_first, allowed_first]
  constructor
  · rintro (⟨rfl, t, h, hrest⟩ | ⟨_, ⟨rfl, t, h, hrest⟩ | ⟨_, state, hstart, hallowed⟩⟩)
    · exact ⟨t, value_opened (k := .object) h, hrest⟩
    · exact ⟨t, value_opened (k := .array) h, hrest⟩
    · obtain ⟨m, hm, rfl⟩ := Option.map_eq_some_iff.mp hstart
      obtain ⟨t, h, hrest⟩ := (allowed_inside (startMode_ne_first hm)).mp hallowed
      exact ⟨t, value_start hm h, hrest⟩
  · rintro ⟨t, h, hrest⟩
    obtain ⟨hc, hs⟩ | ⟨hc, hs⟩ | ⟨m, hm, hs⟩ := value_cons (k := k) h
    · exact Or.inl ⟨hc, t, hs, hrest⟩
    · exact Or.inr ⟨hc ▸ hbracket, Or.inl ⟨hc, t, hs, hrest⟩⟩
    · refine Or.inr ⟨?_, Or.inr ⟨?_, .inside m k stack, ?_, ?_⟩⟩
      · rintro rfl
        cases hm
      · rintro rfl
        cases hm
      · rw [hm]
        rfl
      · exact (allowed_inside (startMode_ne_first hm)).mpr ⟨t, hs, hrest⟩

theorem not_isSpace_of_value (h : Value (c :: s) t) : ¬ IsSpace c := by
  have hspaces : ∀ c ∈ [0x20, 0x09, 0x0A, 0x0D],
      c ≠ OPEN_BRACE ∧ c ≠ OPEN_BRACKET ∧ startMode c = none :=
    List.all_iff_forall_prop.mp (by decide)
  intro hc
  obtain ⟨hbrace, hbracket, hstart⟩ := hspaces c hc
  obtain ⟨hc, _⟩ | ⟨hc, _⟩ | ⟨m, hm, _⟩ := value_cons (k := .array) h
  · exact hbrace hc
  · exact hbracket hc
  · rw [hstart] at hm
    cases hm

theorem valuePhrase_cons : ValuePhrase (c :: s) t ↔
    (IsSpace c ∧ ValuePhrase s t) ∨ (¬ IsSpace c ∧ Value (c :: s) t) := by
  constructor
  · rintro ⟨u, hspaces, h⟩
    obtain rfl | ⟨hc, hspaces⟩ := spaces_cons_iff.mp hspaces
    · exact Or.inr ⟨not_isSpace_of_value h, h⟩
    · exact Or.inl ⟨hc, u, hspaces, h⟩
  · rintro (⟨hc, u, hspaces, h⟩ | ⟨_, h⟩)
    · exact ⟨u, .cons hc hspaces, h⟩
    · exact ⟨c :: s, .nil _, h⟩

theorem allowed_value : Allowed (.inside .value k stack) s ↔
    ∃ t, ValuePhrase s t ∧ Rest (k :: stack) t := allowed_inside (by decide)

theorem leads_value : Leads (insideStep .value k stack c) s ↔
    ∃ t, ValuePhrase (c :: s) t ∧ Rest (k :: stack) t := by
  rw [insideStep, leads_ite, leads_some, allowed_value, leads_startStep]
  constructor
  · rintro (⟨hc, t, h, hrest⟩ | ⟨hc, t, h, hrest⟩)
    · exact ⟨t, valuePhrase_cons.mpr (Or.inl ⟨hc, h⟩), hrest⟩
    · exact ⟨t, valuePhrase_cons.mpr (Or.inr ⟨hc, h⟩), hrest⟩
  · rintro ⟨t, h, hrest⟩
    obtain ⟨hc, h⟩ | ⟨hc, h⟩ := valuePhrase_cons.mp h
    · exact Or.inl ⟨hc, t, h, hrest⟩
    · exact Or.inr ⟨hc, t, h, hrest⟩

/-! Strings. -/

theorem colonPhrase_cons : ColonPhrase (c :: s) t ↔
    (IsSpace c ∧ ColonPhrase s t) ∨ (c = COLON ∧ ValuePhrase s t) := by
  constructor
  · rintro ⟨u, hspaces, h⟩
    obtain hs | ⟨hc, hspaces⟩ := spaces_cons_iff.mp hspaces
    · cases hs
      exact Or.inr ⟨rfl, h⟩
    · exact Or.inl ⟨hc, u, hspaces, h⟩
  · rintro (⟨hc, u, hspaces, h⟩ | ⟨rfl, h⟩)
    · exact ⟨u, .cons hc hspaces, h⟩
    · exact ⟨s, .nil _, h⟩

theorem allowed_colon : Allowed (.inside .colon k stack) s ↔
    ∃ t, ColonPhrase s t ∧ Rest (k :: stack) t := allowed_inside (by decide)

theorem leads_colon : Leads (insideStep .colon k stack c) s ↔
    ∃ t, ColonPhrase (c :: s) t ∧ Rest (k :: stack) t := by
  have hcolon : ¬ IsSpace COLON := by decide
  rw [insideStep, leads_ite, leads_ite, leads_some, leads_some, allowed_value,
    allowed_colon]
  constructor
  · rintro (⟨hc, t, h, hrest⟩ | ⟨_, ⟨hc, t, h, hrest⟩ | ⟨_, h⟩⟩)
    · exact ⟨t, colonPhrase_cons.mpr (Or.inl ⟨hc, h⟩), hrest⟩
    · exact ⟨t, colonPhrase_cons.mpr (Or.inr ⟨hc, h⟩), hrest⟩
    · exact absurd h leads_none
  · rintro ⟨t, h, hrest⟩
    obtain ⟨hc, hs⟩ | ⟨rfl, hs⟩ := colonPhrase_cons.mp h
    · exact Or.inl ⟨hc, t, hs, hrest⟩
    · exact Or.inr ⟨hcolon, Or.inl ⟨rfl, t, hs, hrest⟩⟩

variable {isKey : Bool}

theorem allowed_stringEnd : Allowed (.inside (stringEnd isKey) k stack) s ↔
    ∃ t, StringEnd isKey s t ∧ Rest (k :: stack) t := by
  cases isKey with
  | true => exact allowed_inside (by decide)
  | false => exact allowed_inside (by decide)

theorem allowed_string : Allowed (.inside (.string isKey) k stack) s ↔
    ∃ t, StringPhrase isKey s t ∧ Rest (k :: stack) t := by
  apply allowed_inside
  intro h
  cases h

theorem allowed_escape : Allowed (.inside (.escape isKey) k stack) s ↔
    ∃ t, EscapePhrase isKey s t ∧ Rest (k :: stack) t := by
  apply allowed_inside
  intro h
  cases h

theorem allowed_hexEnd (left : ℕ) : Allowed (.inside (hexEnd isKey left) k stack) s ↔
    ∃ t, HexPhrase isKey left s t ∧ Rest (k :: stack) t := by
  cases left with
  | zero =>
    rw [hexEnd, allowed_string]
    constructor
    · rintro ⟨t, h, hrest⟩
      exact ⟨t, ⟨[], s, rfl, List.forall_mem_nil _, rfl, h⟩, hrest⟩
    · rintro ⟨t, ⟨digits, u, hlength, _, hs, h⟩, hrest⟩
      rw [List.length_eq_zero_iff.mp hlength, List.nil_append] at hs
      rw [hs]
      exact ⟨t, h, hrest⟩
  | succ left =>
    apply allowed_inside
    intro h
    cases h

theorem stringPhrase_cons : StringPhrase isKey (c :: s) t ↔ (c = QUOTE ∧ StringEnd isKey s t) ∨
    (c = BACKSLASH ∧ EscapePhrase isKey s t) ∨
      (c ≠ QUOTE ∧ c ≠ BACKSLASH ∧ 0x20 ≤ c ∧ StringPhrase isKey s t) := by
  constructor
  · rintro ⟨u, h, hend⟩
    cases h with
    | close => exact Or.inl ⟨rfl, hend⟩
    | plain hcontrol hquote hbackslash h =>
      exact Or.inr (Or.inr ⟨hquote, hbackslash, hcontrol, u, h, hend⟩)
    | short hc h => exact Or.inr (Or.inl ⟨rfl, Or.inl ⟨_, _, hc, rfl, u, h, hend⟩⟩)
    | @unicode a b c d s _ ha hb hc hd h =>
      have hdigits : ∀ e ∈ [a, b, c, d], IsHexDigit e := by
        intro e he
        obtain rfl | he := List.mem_cons.mp he
        · exact ha
        obtain rfl | he := List.mem_cons.mp he
        · exact hb
        obtain rfl | he := List.mem_cons.mp he
        · exact hc
        rw [List.mem_singleton.mp he]
        exact hd
      exact Or.inr (Or.inl ⟨rfl, Or.inr ⟨_, rfl, [a, b, c, d], s, rfl, hdigits, rfl, u, h, hend⟩⟩)
  · rintro (⟨rfl, hend⟩ | ⟨rfl, ⟨e, u, he, rfl, v, h, hend⟩ |
      ⟨u, rfl, digits, v, hlength, hdigits, rfl, w, h, hend⟩⟩ |
      ⟨hquote, hbackslash, hcontrol, u, h, hend⟩)
    · exact ⟨s, .close s, hend⟩
    · exact ⟨v, .short he h, hend⟩
    · obtain ⟨a, digits, rfl⟩ := List.exists_cons_of_length_eq_add_one hlength
      obtain ⟨b, digits, rfl⟩ := List.exists_cons_of_length_eq_add_one (Nat.succ.inj hlength)
      obtain ⟨c, digits, rfl⟩ := List.exists_cons_of_length_eq_add_one
        (Nat.succ.inj (Nat.succ.inj hlength))
      obtain ⟨d, rfl⟩ := List.length_eq_one_iff.mp
        (Nat.succ.inj (Nat.succ.inj (Nat.succ.inj hlength)))
      refine ⟨w, .unicode (hdigits a ?_) (hdigits b ?_) (hdigits c ?_) (hdigits d ?_) h, hend⟩
      · exact List.mem_cons_self
      · exact List.mem_cons_of_mem _ List.mem_cons_self
      · exact List.mem_cons_of_mem _ (List.mem_cons_of_mem _ List.mem_cons_self)
      · exact List.mem_cons_of_mem _ (List.mem_cons_of_mem _ (List.mem_cons_of_mem _
          List.mem_cons_self))
    · exact ⟨u, .plain hcontrol hquote hbackslash h, hend⟩

theorem leads_string : Leads (insideStep (.string isKey) k stack c) s ↔
    ∃ t, StringPhrase isKey (c :: s) t ∧ Rest (k :: stack) t := by
  have hbackslash : BACKSLASH ≠ QUOTE := by decide
  rw [insideStep, leads_ite, leads_ite, leads_ite, leads_some, leads_some, leads_some,
    allowed_stringEnd, allowed_escape, allowed_string]
  constructor
  · rintro (⟨hc, t, h, hrest⟩ |
      ⟨hquote, ⟨hc, t, h, hrest⟩ | ⟨hc, ⟨_, h⟩ | ⟨hcontrol, t, h, hrest⟩⟩⟩)
    · exact ⟨t, stringPhrase_cons.mpr (Or.inl ⟨hc, h⟩), hrest⟩
    · exact ⟨t, stringPhrase_cons.mpr (Or.inr (Or.inl ⟨hc, h⟩)), hrest⟩
    · exact absurd h leads_none
    · refine ⟨t, stringPhrase_cons.mpr (Or.inr (Or.inr ⟨hquote, hc, ?_, h⟩)), hrest⟩
      exact UInt8.not_lt.mp hcontrol
  · rintro ⟨t, h, hrest⟩
    obtain ⟨hc, hs⟩ | ⟨rfl, hs⟩ | ⟨hquote, hc, hcontrol, hs⟩ := stringPhrase_cons.mp h
    · exact Or.inl ⟨hc, t, hs, hrest⟩
    · exact Or.inr ⟨hbackslash, Or.inl ⟨rfl, t, hs, hrest⟩⟩
    · exact Or.inr ⟨hquote, Or.inr ⟨hc, Or.inr ⟨UInt8.not_lt.mpr hcontrol, t, hs, hrest⟩⟩⟩

theorem not_isShortEscape_unicode : ¬ IsShortEscape 0x75 := by decide

theorem leads_escape : Leads (insideStep (.escape isKey) k stack c) s ↔
    ∃ t, EscapePhrase isKey (c :: s) t ∧ Rest (k :: stack) t := by
  rw [insideStep, leads_ite, leads_ite, leads_some, leads_some, allowed_string]
  constructor
  · rintro (⟨hc, t, h, hrest⟩ | ⟨_, ⟨hc, h⟩ | ⟨_, h⟩⟩)
    · exact ⟨t, Or.inl ⟨c, s, hc, rfl, h⟩, hrest⟩
    · obtain ⟨t, h, hrest⟩ := (allowed_hexEnd 4).mp h
      exact ⟨t, Or.inr ⟨s, congrArg (· :: s) hc, h⟩, hrest⟩
    · exact absurd h leads_none
  · rintro ⟨t, ⟨e, u, he, hs, h⟩ | ⟨u, hs, h⟩, hrest⟩
    · cases hs
      exact Or.inl ⟨he, t, h, hrest⟩
    · cases hs
      exact Or.inr ⟨not_isShortEscape_unicode,
        Or.inl ⟨rfl, (allowed_hexEnd 4).mpr ⟨t, h, hrest⟩⟩⟩

theorem hexPhrase_cons {n : ℕ} : HexPhrase isKey (n + 1) (c :: s) t ↔
    IsHexDigit c ∧ HexPhrase isKey n s t := by
  constructor
  · rintro ⟨digits, u, hlength, hdigits, hs, h⟩
    obtain ⟨d, digits, rfl⟩ := List.exists_cons_of_length_eq_add_one hlength
    cases hs
    refine ⟨hdigits c List.mem_cons_self, digits, u, Nat.succ.inj hlength, ?_, rfl, h⟩
    intro d hd
    exact hdigits d (List.mem_cons_of_mem c hd)
  · rintro ⟨hc, digits, u, hlength, hdigits, rfl, h⟩
    refine ⟨c :: digits, u, congrArg Nat.succ hlength, ?_, rfl, h⟩
    exact List.forall_mem_cons.mpr ⟨hc, hdigits⟩

theorem leads_hex {left : ℕ} : Leads (insideStep (.hex isKey left) k stack c) s ↔
    ∃ t, HexPhrase isKey (left + 1) (c :: s) t ∧ Rest (k :: stack) t := by
  rw [insideStep, leads_ite, leads_some, allowed_hexEnd]
  constructor
  · rintro (⟨hc, t, h, hrest⟩ | ⟨_, h⟩)
    · exact ⟨t, hexPhrase_cons.mpr ⟨hc, h⟩, hrest⟩
    · exact absurd h leads_none
  · rintro ⟨t, h, hrest⟩
    obtain ⟨hc, h⟩ := hexPhrase_cons.mp h
    exact Or.inl ⟨hc, t, h, hrest⟩

theorem allowed_word {rest : List UInt8} : Allowed (.inside (.word rest) k stack) s ↔
    ∃ t, s = rest ++ t ∧ Rest (k :: stack) t := by
  apply allowed_inside
  intro h
  cases h

theorem leads_word {rest : List UInt8} : Leads (insideStep (.word rest) k stack c) s ↔
    ∃ t, c :: s = rest ++ t ∧ Rest (k :: stack) t := by
  cases rest with
  | nil =>
    rw [insideStep, leads_afterStep]
    constructor
    · exact fun h => ⟨c :: s, rfl, h⟩
    · rintro ⟨t, hs, h⟩
      rw [hs]
      exact h
  | cons d rest =>
    rw [insideStep, leads_ite, leads_some, allowed_word]
    constructor
    · rintro (⟨rfl, t, rfl, hrest⟩ | ⟨_, h⟩)
      · exact ⟨t, rfl, hrest⟩
      · exact absurd h leads_none
    · rintro ⟨t, hs, hrest⟩
      cases hs
      exact Or.inl ⟨rfl, t, rfl, hrest⟩

/-! Entries. -/

theorem leads_entryStep : Leads (entryStep k stack c) s ↔
    (∃ t, EntryPhrase k (c :: s) t ∧ Rest (k :: stack) t) ∧ ¬ IsSpace c := by
  have hquote : ¬ IsSpace QUOTE := by decide
  cases k with
  | object =>
    rw [entryStep, leads_ite, leads_some, allowed_string]
    constructor
    · rintro (⟨rfl, t, h, hrest⟩ | ⟨_, h⟩)
      · exact ⟨⟨t, ⟨s, .nil _, h⟩, hrest⟩, hquote⟩
      · exact absurd h leads_none
    · rintro ⟨⟨t, ⟨u, hspaces, h⟩, hrest⟩, hc⟩
      obtain hs | ⟨hspace, _⟩ := spaces_cons_iff.mp hspaces
      · cases hs
        exact Or.inl ⟨rfl, t, h, hrest⟩
      · exact absurd hspace hc
  | array =>
    rw [entryStep, leads_startStep]
    constructor
    · rintro ⟨t, h, hrest⟩
      have hc := not_isSpace_of_value h
      exact ⟨⟨t, valuePhrase_cons.mpr (Or.inr ⟨hc, h⟩), hrest⟩, hc⟩
    · rintro ⟨⟨t, h, hrest⟩, hc⟩
      obtain ⟨hspace, _⟩ | ⟨_, h⟩ := valuePhrase_cons.mp h
      · exact absurd hspace hc
      · exact ⟨t, h, hrest⟩

theorem entryPhrase_space (hc : IsSpace c) : EntryPhrase k (c :: s) t ↔ EntryPhrase k s t := by
  have hquote : ¬ IsSpace QUOTE := by decide
  cases k with
  | object =>
    constructor
    · rintro ⟨u, hspaces, h⟩
      obtain hs | ⟨_, hspaces⟩ := spaces_cons_iff.mp hspaces
      · cases hs
        exact absurd hc hquote
      · exact ⟨u, hspaces, h⟩
    · rintro ⟨u, hspaces, h⟩
      exact ⟨u, .cons hc hspaces, h⟩
  | array =>
    constructor
    · intro h
      obtain ⟨_, h⟩ | ⟨hspace, _⟩ := valuePhrase_cons.mp h
      · exact h
      · exact absurd hc hspace
    · exact fun h => valuePhrase_cons.mpr (Or.inl ⟨hc, h⟩)

theorem allowed_entry : Allowed (.inside .next k stack) s ↔
    ∃ t, EntryPhrase k s t ∧ Rest (k :: stack) t := allowed_inside (by decide)

theorem leads_next : Leads (insideStep .next k stack c) s ↔
    ∃ t, EntryPhrase k (c :: s) t ∧ Rest (k :: stack) t := by
  rw [insideStep, leads_ite, leads_some, allowed_entry, leads_entryStep]
  constructor
  · rintro (⟨hc, t, h, hrest⟩ | ⟨_, h, _⟩)
    · exact ⟨t, (entryPhrase_space hc).mpr h, hrest⟩
    · exact h
  · rintro ⟨t, h, hrest⟩
    obtain hc | hc := Decidable.em (IsSpace c)
    · exact Or.inl ⟨hc, t, (entryPhrase_space hc).mp h, hrest⟩
    · exact Or.inr ⟨hc, ⟨t, h, hrest⟩, hc⟩

/-- An opened container is closed at once, or an entry comes first. -/
theorem opened_rest : (∃ t, Opened k s t ∧ Rest stack t) ↔
    (∃ t, Spaces s (k.closing :: t) ∧ Rest stack t) ∨
      ∃ t, EntryPhrase k s t ∧ Rest (k :: stack) t := by
  rw [← allowed_entry, allowed_next]
  constructor
  · rintro ⟨t, h | h, hrest⟩
    · exact Or.inl ⟨t, h, hrest⟩
    · exact Or.inr ⟨t, h, hrest⟩
  · rintro (⟨t, h, hrest⟩ | ⟨t, h, hrest⟩)
    · exact ⟨t, Or.inl h, hrest⟩
    · exact ⟨t, Or.inr h, hrest⟩

theorem not_entryPhrase_closing : ¬ EntryPhrase k (k.closing :: s) t := by
  cases k with
  | object =>
    rintro ⟨u, hspaces, _⟩
    obtain hs | ⟨hspace, _⟩ := spaces_cons_iff.mp hspaces
    · cases hs
    · exact not_isSpace_closing .object hspace
  | array =>
    intro h
    obtain ⟨hspace, _⟩ | ⟨_, h⟩ := valuePhrase_cons.mp h
    · exact not_isSpace_closing .array hspace
    · obtain ⟨hc, _⟩ | ⟨hc, _⟩ | ⟨m, hm, _⟩ := value_cons (k := .array) h
      · cases hc
      · cases hc
      · cases hm

theorem leads_first : Leads (insideStep .first k stack c) s ↔
    ∃ t, Opened k (c :: s) t ∧ Rest stack t := by
  rw [insideStep, leads_ite, leads_ite, leads_some, leads_some, allowed_first, allowed_pop,
    leads_entryStep, opened_rest, opened_rest]
  constructor
  · rintro (⟨hc, ⟨t, h, hrest⟩ | ⟨t, h, hrest⟩⟩ | ⟨_, ⟨rfl, hrest⟩ | ⟨_, h, _⟩⟩)
    · exact Or.inl ⟨t, .cons hc h, hrest⟩
    · exact Or.inr ⟨t, (entryPhrase_space hc).mpr h, hrest⟩
    · exact Or.inl ⟨s, .nil _, hrest⟩
    · exact Or.inr h
  · rintro (⟨t, h, hrest⟩ | ⟨t, h, hrest⟩)
    · obtain hs | ⟨hc, h⟩ := spaces_cons_iff.mp h
      · cases hs
        exact Or.inr ⟨not_isSpace_closing k, Or.inl ⟨rfl, hrest⟩⟩
      · exact Or.inl ⟨hc, Or.inl ⟨t, h, hrest⟩⟩
    · obtain hc | hc := Decidable.em (IsSpace c)
      · exact Or.inl ⟨hc, Or.inr ⟨t, (entryPhrase_space hc).mp h, hrest⟩⟩
      · refine Or.inr ⟨hc, Or.inr ⟨?_, ⟨t, h, hrest⟩, hc⟩⟩
        rintro rfl
        exact not_entryPhrase_closing h

/-! Runs. -/

theorem allowed_cons {state : State} : Allowed state (c :: s) ↔ Leads (step state c) s := by
  cases state with
  | text =>
    have hbrace : ¬ IsSpace OPEN_BRACE := by decide
    rw [step, leads_ite, leads_ite, leads_some, leads_some, allowed_first]
    constructor
    · rintro ⟨t, u, hspaces, h, hafter⟩
      obtain hs | ⟨hc, hspaces⟩ := spaces_cons_iff.mp hspaces
      · cases hs
        exact Or.inr ⟨hbrace, Or.inl ⟨rfl, u, h, hafter⟩⟩
      · exact Or.inl ⟨hc, t, u, hspaces, h, hafter⟩
    · rintro (⟨hc, t, u, hspaces, h, hafter⟩ | ⟨_, ⟨rfl, u, h, hafter⟩ | ⟨_, h⟩⟩)
      · exact ⟨t, u, .cons hc hspaces, h, hafter⟩
      · exact ⟨s, u, .nil _, h, hafter⟩
      · exact absurd h leads_none
  | done =>
    rw [step, leads_ite, leads_some]
    constructor
    · intro h
      obtain hs | h := spaces_cons_iff.mp h
      · cases hs
      · exact Or.inl h
    · rintro (⟨hc, h⟩ | ⟨_, h⟩)
      · exact .cons hc h
      · exact absurd h leads_none
  | inside m k stack =>
    rw [step]
    cases m with
    | first => rw [leads_first, allowed_first]
    | next => rw [leads_next, allowed_entry]
    | colon => rw [leads_colon, allowed_colon]
    | value => rw [leads_value, allowed_value]
    | after => rw [insideStep, leads_afterStep, allowed_after]
    | string isKey => rw [leads_string, allowed_string]
    | escape isKey => rw [leads_escape, allowed_escape]
    | hex isKey left => rw [leads_hex, ← allowed_hexEnd, hexEnd]
    | word rest => rw [leads_word, allowed_word]
    | number m => rw [leads_number, allowed_number]

theorem stringPhrase_nil : ¬ StringPhrase isKey [] t := by
  rintro ⟨u, h, _⟩
  cases h

theorem valuePhrase_nil : ¬ ValuePhrase [] t := by
  rintro ⟨u, hspaces, h⟩
  rw [spaces_nil_iff.mp hspaces] at h
  generalize hv : ([] : List UInt8) = v at h
  cases h with
  | null => cases hv
  | true => cases hv
  | false => cases hv
  | number h =>
    rw [← hv] at h
    cases h with
    | positive h =>
      obtain ⟨hint, _, _⟩ := h
      cases hint
  | string => cases hv
  | emptyArray => cases hv
  | array => cases hv
  | emptyObject => cases hv
  | object => cases hv

theorem phrase_nil {m : Mode} (h : Phrase m k [] t) : t = [] := by
  cases m with
  | first => cases h
  | next =>
    cases k with
    | object =>
      obtain ⟨u, hspaces, _⟩ := h
      cases spaces_nil_iff.mp hspaces
    | array => exact absurd h valuePhrase_nil
  | colon =>
    obtain ⟨u, hspaces, _⟩ := h
    cases spaces_nil_iff.mp hspaces
  | value => exact absurd h valuePhrase_nil
  | after => exact Eq.symm h
  | string isKey => exact absurd h stringPhrase_nil
  | escape isKey =>
    obtain ⟨c, u, _, hs, _⟩ | ⟨u, hs, _⟩ := h
    · cases hs
    · cases hs
  | hex isKey left =>
    obtain ⟨digits, u, _, _, hs, h⟩ := h
    rw [(List.append_eq_nil_iff.mp hs.symm).2] at h
    exact absurd h stringPhrase_nil
  | word rest => exact (List.append_eq_nil_iff.mp (Eq.symm h)).2
  | number m => exact numberPhrase_nil h

theorem allowed_nil {state : State} : Allowed state [] ↔ state = .done := by
  cases state with
  | text =>
    constructor
    · rintro ⟨t, u, hspaces, _⟩
      cases spaces_nil_iff.mp hspaces
    · intro h
      cases h
  | done => exact ⟨fun _ => rfl, fun _ => .nil _⟩
  | inside m k stack =>
    constructor
    · rintro (⟨_, t, h, _⟩ | ⟨t, h, hrest⟩)
      · obtain h | h := h
        · cases spaces_nil_iff.mp h
        · obtain ⟨u, h, hfollowing⟩ := entries_iff.mp h
          have hnil := phrase_nil (m := .next) h
          rw [hnil] at hfollowing
          obtain h | ⟨v, h, _⟩ := hfollowing
          · cases spaces_nil_iff.mp h
          · cases spaces_nil_iff.mp h
      · rw [phrase_nil h] at hrest
        exact absurd hrest not_rest_nil
    · intro h
      cases h

theorem accepts_cons {state : State} : Accepts state (c :: s) ↔
    ∃ state', step state c = some state' ∧ Accepts state' s := by
  rw [Accepts, run, List.foldlM_cons]
  exact Option.bind_eq_some_iff

/-- What the automaton accepts from a state is what the grammar allows from there. -/
theorem accepts_iff {state : State} : Accepts state s ↔ Allowed state s := by
  induction s generalizing state with
  | nil =>
    rw [allowed_nil]
    exact Option.some_inj
  | cons c s ih =>
    rw [accepts_cons, allowed_cons]
    constructor
    · rintro ⟨state', hstep, h⟩
      exact ⟨state', hstep, ih.mp h⟩
    · rintro ⟨state', hstep, h⟩
      exact ⟨state', hstep, ih.mpr h⟩

/-- The automaton accepts the texts that are one object. -/
theorem accepts_text_iff : Accepts .text s ↔ ∃ ms, Object s ms := by
  rw [accepts_iff]
  constructor
  · rintro ⟨t, u, hbefore, h | ⟨ms, h⟩, hafter⟩
    · exact ⟨[], .empty hbefore h hafter⟩
    · exact ⟨ms, .members hbefore h hafter⟩
  · rintro ⟨ms, h⟩
    cases h with
    | empty hbefore h hafter => exact ⟨_, _, hbefore, Or.inl h, hafter⟩
    | members hbefore h hafter => exact ⟨_, _, hbefore, Or.inr ⟨_, h⟩, hafter⟩

end Leads

example : Accepts .text (bytes " \x7b\"a\" : [ 1.5e-3 , \"\\u00e9\" ], \"b\":\x7b\x7d \x7d") := by
  decide +kernel

end Json
