import Mathlib.Data.Nat.Notation

/-!
# The grammar of JSON texts

A text is a list of bytes; a string is taken at the level of bytes. A relation
of the grammar has the text before a phrase and the text after it. Bytes above
`0x7F` may stand in strings only.
-/

namespace Json

set_option autoImplicit false

def QUOTE : UInt8 := 0x22
def BACKSLASH : UInt8 := 0x5C
def COMMA : UInt8 := 0x2C
def COLON : UInt8 := 0x3A
def POINT : UInt8 := 0x2E
def MINUS : UInt8 := 0x2D
def PLUS : UInt8 := 0x2B
def OPEN_BRACE : UInt8 := 0x7B
def CLOSE_BRACE : UInt8 := 0x7D
def OPEN_BRACKET : UInt8 := 0x5B
def CLOSE_BRACKET : UInt8 := 0x5D

/-- The bytes of an ASCII text. -/
def bytes (s : String) : List UInt8 := s.toList.map fun c => c.toNat.toUInt8

def IsSpace (c : UInt8) : Prop := c ∈ [0x20, 0x09, 0x0A, 0x0D]

def IsDigit (c : UInt8) : Prop := 0x30 ≤ c ∧ c ≤ 0x39

def IsHexDigit (c : UInt8) : Prop :=
  IsDigit c ∨ (0x41 ≤ c ∧ c ≤ 0x46) ∨ (0x61 ≤ c ∧ c ≤ 0x66)

/-- What may follow a backslash, `u` apart. -/
def IsShortEscape (c : UInt8) : Prop := c ∈ bytes "\"\\/bfnrt"

instance : DecidablePred IsSpace := fun _ => inferInstanceAs (Decidable (_ ∈ _))
instance : DecidablePred IsDigit := fun _ => inferInstanceAs (Decidable (_ ∧ _))
instance : DecidablePred IsHexDigit := fun _ => inferInstanceAs (Decidable (_ ∨ _))
instance : DecidablePred IsShortEscape := fun _ => inferInstanceAs (Decidable (_ ∈ _))

inductive Spaces : List UInt8 → List UInt8 → Prop
  | nil (s : List UInt8) : Spaces s s
  | cons {c : UInt8} {s t : List UInt8} (hc : IsSpace c) (h : Spaces s t) : Spaces (c :: s) t

/-- The rest of a string after its opening quote. -/
inductive Chars : List UInt8 → List UInt8 → Prop
  | close (s : List UInt8) : Chars (QUOTE :: s) s
  | plain {c : UInt8} {s t : List UInt8} (hcontrol : 0x20 ≤ c) (hquote : c ≠ QUOTE)
    (hbackslash : c ≠ BACKSLASH) (h : Chars s t) : Chars (c :: s) t
  | short {c : UInt8} {s t : List UInt8} (hc : IsShortEscape c) (h : Chars s t) :
    Chars (BACKSLASH :: c :: s) t
  | unicode {a b c d : UInt8} {s t : List UInt8} (ha : IsHexDigit a) (hb : IsHexDigit b)
    (hc : IsHexDigit c) (hd : IsHexDigit d) (h : Chars s t) :
    Chars (BACKSLASH :: 0x75 :: a :: b :: c :: d :: s) t

/-- One or more digits. -/
inductive Digits : List UInt8 → List UInt8 → Prop
  | one {c : UInt8} (s : List UInt8) (hc : IsDigit c) : Digits (c :: s) s
  | cons {c : UInt8} {s t : List UInt8} (hc : IsDigit c) (h : Digits s t) : Digits (c :: s) t

/-- Digits without a leading zero. -/
inductive Natural : List UInt8 → List UInt8 → Prop
  | zero (s : List UInt8) : Natural (0x30 :: s) s
  | digit {c : UInt8} (s : List UInt8) (hc : IsDigit c) (hzero : c ≠ 0x30) : Natural (c :: s) s
  | digits {c : UInt8} {s t : List UInt8} (hc : IsDigit c) (hzero : c ≠ 0x30)
    (h : Digits s t) : Natural (c :: s) t

inductive Fraction : List UInt8 → List UInt8 → Prop
  | none (s : List UInt8) : Fraction s s
  | digits {s t : List UInt8} (h : Digits s t) : Fraction (POINT :: s) t

inductive Exponent : List UInt8 → List UInt8 → Prop
  | none (s : List UInt8) : Exponent s s
  | digits {e : UInt8} {s t : List UInt8} (he : e ∈ bytes "eE") (h : Digits s t) :
    Exponent (e :: s) t
  | signed {e sign : UInt8} {s t : List UInt8} (he : e ∈ bytes "eE") (hsign : sign ∈ bytes "+-")
    (h : Digits s t) : Exponent (e :: sign :: s) t

/-- A number without its sign. -/
inductive Unsigned : List UInt8 → List UInt8 → Prop
  | mk {s t u v : List UInt8} (hint : Natural s t) (hfraction : Fraction t u)
    (hexponent : Exponent u v) : Unsigned s v

inductive Number : List UInt8 → List UInt8 → Prop
  | positive {s t : List UInt8} (h : Unsigned s t) : Number s t
  | negative {s t : List UInt8} (h : Unsigned s t) : Number (MINUS :: s) t

/-- A member of an object: the text after the opening quote of its key, that after the closing
quote, that from its value on and that after its value. -/
structure Member where
  key : List UInt8
  keyEnd : List UInt8
  value : List UInt8
  rest : List UInt8

mutual

inductive Value : List UInt8 → List UInt8 → Prop
  | null (s : List UInt8) : Value (bytes "null" ++ s) s
  | true (s : List UInt8) : Value (bytes "true" ++ s) s
  | false (s : List UInt8) : Value (bytes "false" ++ s) s
  | number {s t : List UInt8} (h : Number s t) : Value s t
  | string {s t : List UInt8} (h : Chars s t) : Value (QUOTE :: s) t
  | emptyArray {s t : List UInt8} (h : Spaces s (CLOSE_BRACKET :: t)) : Value (OPEN_BRACKET :: s) t
  | array {s t : List UInt8} (h : Elements s (CLOSE_BRACKET :: t)) : Value (OPEN_BRACKET :: s) t
  | emptyObject {s t : List UInt8} (h : Spaces s (CLOSE_BRACE :: t)) : Value (OPEN_BRACE :: s) t
  | object {s t : List UInt8} {ms : List Member} (h : Members s ms (CLOSE_BRACE :: t)) :
    Value (OPEN_BRACE :: s) t

inductive Elements : List UInt8 → List UInt8 → Prop
  | one {s t : List UInt8} (h : Element s t) : Elements s t
  | cons {s t u : List UInt8} (h : Element s (COMMA :: t)) (hs : Elements t u) : Elements s u

inductive Element : List UInt8 → List UInt8 → Prop
  | mk {s t u v : List UInt8} (hbefore : Spaces s t) (h : Value t u) (hafter : Spaces u v) :
    Element s v

inductive Members : List UInt8 → List Member → List UInt8 → Prop
  | one {s t : List UInt8} {m : Member} (h : IsMember s m t) : Members s [m] t
  | cons {s t u : List UInt8} {m : Member} {ms : List Member} (h : IsMember s m (COMMA :: t))
    (hs : Members t ms u) : Members s (m :: ms) u

inductive IsMember : List UInt8 → Member → List UInt8 → Prop
  | mk {s key keyEnd colon value rest t : List UInt8} (hbefore : Spaces s (QUOTE :: key))
    (hkey : Chars key keyEnd) (hcolon : Spaces keyEnd (COLON :: colon))
    (hvalue : Spaces colon value) (h : Value value rest) (hafter : Spaces rest t) :
    IsMember s ⟨key, keyEnd, value, rest⟩ t

end

/-- A whole text that is one object. -/
inductive Object : List UInt8 → List Member → Prop
  | empty {s t u : List UInt8} (hbefore : Spaces s (OPEN_BRACE :: t))
    (h : Spaces t (CLOSE_BRACE :: u)) (hafter : Spaces u []) : Object s []
  | members {s t u : List UInt8} {ms : List Member} (hbefore : Spaces s (OPEN_BRACE :: t))
    (h : Members t ms (CLOSE_BRACE :: u)) (hafter : Spaces u []) : Object s ms

end Json
