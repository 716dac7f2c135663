import Gempba.Library.JsonAutomaton

/-!
# What JSON strings and numbers say

The bytes of a string without its escapes, a code point as UTF-8, and the number
that digits write. A surrogate that is not one of a pair says nothing.
-/

namespace Json

set_option autoImplicit false

def hexDigitValue (c : UInt8) : ℕ :=
  if c ≤ 0x39 then c.toNat - 0x30 else if c ≤ 0x46 then c.toNat - 0x37 else c.toNat - 0x57

/-- What four hex digits write. -/
def codeUnit (a b c d : UInt8) : ℕ :=
  ((hexDigitValue a * 16 + hexDigitValue b) * 16 + hexDigitValue c) * 16 + hexDigitValue d

/-- What may follow a backslash, with the byte it stands for. -/
def SHORT_ESCAPES : List (UInt8 × UInt8) :=
  [(QUOTE, QUOTE), (BACKSLASH, BACKSLASH), (0x2F, 0x2F), (0x62, 0x08), (0x66, 0x0C), (0x6E, 0x0A),
    (0x72, 0x0D), (0x74, 0x09)]

def IsHigh (unit : ℕ) : Prop := 0xD800 ≤ unit ∧ unit ≤ 0xDBFF

def IsLow (unit : ℕ) : Prop := 0xDC00 ≤ unit ∧ unit ≤ 0xDFFF

/-- The text of a string after its opening quote, what it says, and the text after it. -/
inductive Unescapes : List UInt8 → List UInt8 → List UInt8 → Prop
  | close (s : List UInt8) : Unescapes (QUOTE :: s) [] s
  | plain {c : UInt8} {s v t : List UInt8} (hcontrol : 0x20 ≤ c) (hquote : c ≠ QUOTE)
    (hbackslash : c ≠ BACKSLASH) (h : Unescapes s v t) : Unescapes (c :: s) (c :: v) t
  | short {e c : UInt8} {s v t : List UInt8} (he : (e, c) ∈ SHORT_ESCAPES) (h : Unescapes s v t) :
    Unescapes (BACKSLASH :: e :: s) (c :: v) t
  | unicode {a b c d : UInt8} {point : Char} {s v t : List UInt8}
    (hdigits : ∀ x ∈ [a, b, c, d], IsHexDigit x) (hpoint : point.toNat = codeUnit a b c d)
    (h : Unescapes s v t) :
    Unescapes (BACKSLASH :: 0x75 :: a :: b :: c :: d :: s) (String.utf8EncodeChar point ++ v) t
  | pair {a b c d a' b' c' d' : UInt8} {point : Char} {s v t : List UInt8}
    (hdigits : ∀ x ∈ [a, b, c, d, a', b', c', d'], IsHexDigit x)
    (hhigh : IsHigh (codeUnit a b c d)) (hlow : IsLow (codeUnit a' b' c' d'))
    (hpoint : point.toNat =
      0x10000 + (codeUnit a b c d - 0xD800) * 0x400 + (codeUnit a' b' c' d' - 0xDC00))
    (h : Unescapes s v t) :
    Unescapes (BACKSLASH :: 0x75 :: a :: b :: c :: d :: BACKSLASH :: 0x75 :: a' :: b' :: c' :: d' ::
      s) (String.utf8EncodeChar point ++ v) t

def decimalValue (digits : List UInt8) : ℕ :=
  digits.foldl (fun n c => n * 10 + (c.toNat - 0x30)) 0

namespace Member

/-- The key is the name, written without escapes. -/
def Named (m : Member) (name : List UInt8) : Prop := m.key = name ++ QUOTE :: m.keyEnd

instance (m : Member) (name : List UInt8) : Decidable (m.Named name) :=
  inferInstanceAs (Decidable (_ = _))

def HasPlainKey (m : Member) : Prop := ∃ name, m.Named name ∧ BACKSLASH ∉ name

/-- The value is a string that says the bytes. -/
def IsString (m : Member) (v : List UInt8) : Prop :=
  ∃ s, m.value = QUOTE :: s ∧ Unescapes s v m.rest

/-- The value is a number without sign, point and exponent. -/
def IsUnsigned (m : Member) (n : ℕ) : Prop :=
  Natural m.value m.rest ∧ ∃ digits, m.value = digits ++ m.rest ∧ decimalValue digits = n

end Member

/-- The first member with the name. -/
def topLevel (ms : List Member) (name : List UInt8) : Option Member :=
  ms.find? fun m => decide (m.Named name)

/-! Members. -/

/-- The value of a member, with a byte after it that no number goes on with. -/
structure Member.Placed (m : Member) : Prop where
  value : Value m.value m.rest
  rest : ∃ c s, m.rest = c :: s ∧ ¬ IsDigit c

variable {s t : List UInt8} {m : Member} {ms : List Member}

theorem rest_of_spaces {c : UInt8} (h : Spaces s (c :: t)) (hc : ¬ IsDigit c) :
    ∃ d u, s = d :: u ∧ ¬ IsDigit d := by
  have hspaces : ∀ d ∈ [0x20, 0x09, 0x0A, 0x0D], ¬ IsDigit d :=
    List.all_iff_forall_prop.mp (by decide)
  cases h with
  | nil => exact ⟨c, t, rfl, hc⟩
  | cons hd h => exact ⟨_, _, rfl, hspaces _ hd⟩

theorem isMember_placed {c : UInt8} (h : IsMember s m (c :: t)) (hc : ¬ IsDigit c) :
    m.Placed := by
  cases h with
  | mk hbefore hkey hcolon hvalue h hafter => exact ⟨h, rest_of_spaces hafter hc⟩

theorem members_placed {u : List UInt8} (h : Members s ms (CLOSE_BRACE :: u)) :
    ∀ m ∈ ms, m.Placed := by
  have hcomma : ¬ IsDigit COMMA := by decide
  have hbrace : ¬ IsDigit CLOSE_BRACE := by decide
  induction ms generalizing s with
  | nil => cases h
  | cons m ms ih =>
    cases h with
    | one h =>
      intro m' hm'
      rw [List.mem_singleton.mp hm']
      exact isMember_placed h hbrace
    | cons h hs => exact List.forall_mem_cons.mpr ⟨isMember_placed h hcomma, ih hs⟩

theorem object_placed (h : Object s ms) : ∀ m ∈ ms, m.Placed := by
  cases h with
  | empty => exact List.forall_mem_nil _
  | members _ h _ => exact members_placed h

theorem topLevel_mem {name : List UInt8} (h : topLevel ms name = some m) : m ∈ ms :=
  List.mem_of_find?_eq_some h

theorem digits_text (h : Digits s t) :
    ∃ digits, s = digits ++ t ∧ digits ≠ [] ∧ ∀ c ∈ digits, IsDigit c := by
  induction h with
  | @one c s hc => exact ⟨[c], rfl, List.cons_ne_nil c [], List.forall_mem_singleton.mpr hc⟩
  | @cons c s t hc h ih =>
    obtain ⟨digits, rfl, _, hdigits⟩ := ih
    exact ⟨c :: digits, rfl, List.cons_ne_nil c digits, List.forall_mem_cons.mpr ⟨hc, hdigits⟩⟩

theorem natural_text (h : Natural s t) :
    ∃ digits, s = digits ++ t ∧ digits ≠ [] ∧ ∀ c ∈ digits, IsDigit c := by
  cases h with
  | zero => exact digits_text (.one t (by decide))
  | digit _ hc => exact digits_text (.one t hc)
  | digits hc _ h => exact digits_text (.cons hc h)

/-- A value that starts with a quote is a string. -/
theorem chars_of_value (h : Value (QUOTE :: s) t) : Chars s t := by
  obtain ⟨hc, _⟩ | ⟨hc, _⟩ | ⟨m, hm, hphrase⟩ := value_cons (k := .array) h
  · cases hc
  · cases hc
  · cases hm
    obtain ⟨u, hs, rfl⟩ := hphrase
    exact hs

/-! Where a string ends. -/

theorem chars_unique {t' : List UInt8} (h : Chars s t) (h' : Chars s t') : t = t' := by
  induction h with
  | close s =>
    cases h' with
    | close => rfl
    | plain _ hquote => exact absurd rfl hquote
  | plain _ hquote hbackslash _ ih =>
    cases h' with
    | close => exact absurd rfl hquote
    | plain _ _ _ h' => exact ih h'
    | short => exact absurd rfl hbackslash
    | unicode => exact absurd rfl hbackslash
  | short hc _ ih =>
    cases h' with
    | plain _ _ hbackslash => exact absurd rfl hbackslash
    | short _ h' => exact ih h'
    | unicode => exact absurd hc not_isShortEscape_unicode
  | unicode _ _ _ _ _ ih =>
    cases h' with
    | plain _ _ hbackslash => exact absurd rfl hbackslash
    | short hc => exact absurd hc not_isShortEscape_unicode
    | unicode _ _ _ _ h' => exact ih h'

theorem chars_plain {a : List UInt8} (h : ∀ c ∈ a, 0x20 ≤ c ∧ c ≠ QUOTE ∧ c ≠ BACKSLASH) :
    Chars (a ++ QUOTE :: t) t := by
  induction a with
  | nil => exact .close t
  | cons c a ih =>
    obtain ⟨hcontrol, hquote, hbackslash⟩ := h c List.mem_cons_self
    exact .plain hcontrol hquote hbackslash (ih fun d hd => h d (List.mem_cons_of_mem c hd))

end Json
