import Gempba.Library.JsonValues
import Gempba.Telemetry.ControlLine
import Mathlib.Data.List.TakeWhile

/-!
# What the reader of a field reads

A field stands after the first occurrence of its quoted name and a colon. The
reader of strings undoes the escapes up to the next quote, and refuses a string
with a surrogate that is not one of a pair. The reader of numbers reads digits
that do not pass the bound. In a JSON text it reads what the text says.
-/

namespace Gempba.Telemetry

set_option autoImplicit false

open Json

/-! What stands in a field. -/

def IsBlank (c : UInt8) : Prop := c ∈ [0x20, 0x09, 0x0A, 0x0B, 0x0C, 0x0D]

instance : DecidablePred IsBlank := fun _ => inferInstanceAs (Decidable (_ ∈ _))

/-- The first occurrence of a text, between what comes before and after it. -/
structure FirstAt (text before after line : Bytes) : Prop where
  split : line = before ++ text ++ after
  first : ∀ before' after', line = before' ++ text ++ after' → before.length ≤ before'.length

/-- The rest of a line from what stands in the field on. -/
def AfterField (line name rest : Bytes) : Prop :=
  ∃ before gap, FirstAt (QUOTE :: name ++ [QUOTE, COLON]) before (gap ++ rest) line ∧
    (∀ c ∈ gap, IsBlank c) ∧ ∀ c ∈ rest.head?, ¬ IsBlank c

/-- A text after an opening quote, and what it says up to the closing one; other than in a JSON
string, control bytes may stand in it. -/
inductive Spells : Bytes → Bytes → Prop
  | close (s : Bytes) : Spells (QUOTE :: s) []
  | plain {c : UInt8} {s v : Bytes} (hquote : c ≠ QUOTE) (hbackslash : c ≠ BACKSLASH)
    (h : Spells s v) : Spells (c :: s) (c :: v)
  | short {e c : UInt8} {s v : Bytes} (he : (e, c) ∈ SHORT_ESCAPES) (h : Spells s v) :
    Spells (BACKSLASH :: e :: s) (c :: v)
  | unicode {a b c d : UInt8} {point : Char} {s v : Bytes}
    (hdigits : ∀ x ∈ [a, b, c, d], IsHexDigit x) (hpoint : point.toNat = codeUnit a b c d)
    (h : Spells s v) :
    Spells (BACKSLASH :: 0x75 :: a :: b :: c :: d :: s) (String.utf8EncodeChar point ++ v)
  | pair {a b c d a' b' c' d' : UInt8} {point : Char} {s v : Bytes}
    (hdigits : ∀ x ∈ [a, b, c, d, a', b', c', d'], IsHexDigit x)
    (hhigh : IsHigh (codeUnit a b c d)) (hlow : IsLow (codeUnit a' b' c' d'))
    (hpoint : point.toNat =
      0x10000 + (codeUnit a b c d - 0xD800) * 0x400 + (codeUnit a' b' c' d' - 0xDC00))
    (h : Spells s v) :
    Spells (BACKSLASH :: 0x75 :: a :: b :: c :: d :: BACKSLASH :: 0x75 :: a' :: b' :: c' :: d' :: s)
      (String.utf8EncodeChar point ++ v)

/-- Digits, and a rest that does not go on with one. -/
structure Decimal (digits rest : Bytes) : Prop where
  ne : digits ≠ []
  digits : ∀ c ∈ digits, IsDigit c
  rest : ∀ c ∈ rest.head?, ¬ IsDigit c

def FirstString (line name v : Bytes) : Prop :=
  ∃ s, AfterField line name (QUOTE :: s) ∧ Spells s v

def FirstUnsigned (line name : Bytes) (n : ℕ) : Prop :=
  ∃ digits rest, AfterField line name (digits ++ rest) ∧ Decimal digits rest ∧
    decimalValue digits = n

variable {s t v : Bytes} {a b c d : UInt8}

/-! Escapes. -/

/-- The encoding of a code point, by its number of bytes. -/
theorem utf8EncodeChar_eq (point : Char) : String.utf8EncodeChar point =
    if point.toNat ≤ 0x7F then [UInt8.ofNat point.toNat]
    else if point.toNat ≤ 0x7FF then
      [UInt8.ofNat (point.toNat / 64 % 0x20 + 0xC0), UInt8.ofNat (point.toNat % 0x40 + 0x80)]
    else if point.toNat ≤ 0xFFFF then
      [UInt8.ofNat (point.toNat / 4096 % 0x10 + 0xE0),
        UInt8.ofNat (point.toNat / 64 % 0x40 + 0x80), UInt8.ofNat (point.toNat % 0x40 + 0x80)]
    else
      [UInt8.ofNat (point.toNat / 262144 % 0x08 + 0xF0),
        UInt8.ofNat (point.toNat / 4096 % 0x40 + 0x80),
        UInt8.ofNat (point.toNat / 64 % 0x40 + 0x80),
        UInt8.ofNat (point.toNat % 0x40 + 0x80)] := rfl

theorem cons_ofNat {m n : ℕ} (h : m = n) (hst : s = t) :
    UInt8.ofNat m :: s = UInt8.ofNat n :: t := by
  rw [h, hst]

theorem appendUtf8_toNat (point : Char) : appendUtf8 point.toNat = String.utf8EncodeChar point := by
  have hvalid : point.toNat < 0xD800 ∨ 0xDFFF < point.toNat ∧ point.toNat < 0x110000 := point.valid
  rw [appendUtf8, utf8EncodeChar_eq]
  generalize point.toNat = n at hvalid
  obtain h | h := Nat.lt_or_ge n 0x80
  · rw [if_pos h, if_pos (by omega)]
  obtain h' | h' := Nat.lt_or_ge n 0x800
  · rw [if_neg (by omega), if_pos h', if_neg (by omega), if_pos (by omega)]
    exact cons_ofNat (by omega) (cons_ofNat (by omega) rfl)
  obtain h'' | h'' := Nat.lt_or_ge n 0x10000
  · rw [if_neg (by omega), if_neg (by omega), if_pos h'', if_neg (by omega), if_neg (by omega),
      if_pos (by omega)]
    exact cons_ofNat (by omega) (cons_ofNat (by omega) (cons_ofNat (by omega) rfl))
  · rw [if_neg (by omega), if_neg (by omega), if_neg (by omega), if_neg (by omega),
      if_neg (by omega), if_neg (by omega)]
    exact cons_ofNat (by omega)
      (cons_ofNat (by omega) (cons_ofNat (by omega) (cons_ofNat (by omega) rfl)))

theorem exists_char {n : ℕ} (h : n < 0xD800 ∨ 0xDFFF < n ∧ n < 0x110000) :
    ∃ point : Char, point.toNat = n := by
  refine ⟨Char.ofNat n, ?_⟩
  rw [Char.ofNat, dif_pos h]
  rfl

theorem hexValue_eq (h : IsHexDigit c) : hexValue c = some (hexDigitValue c) := by
  rw [hexValue, hexDigitValue]
  obtain ⟨hlow, hhigh⟩ | h | h := h
  · rw [if_pos ⟨hlow, hhigh⟩, if_pos hhigh]
  · have hdigit : ¬ c ≤ 0x39 := fun hc => absurd (UInt8.le_trans h.1 hc) (by decide)
    rw [if_neg fun hc => hdigit hc.2, if_pos h, if_neg hdigit, if_pos h.2]
  · have hupper : ¬ c ≤ 0x46 := fun hc => absurd (UInt8.le_trans h.1 hc) (by decide)
    have hdigit : ¬ c ≤ 0x39 := fun hc => absurd (UInt8.le_trans h.1 hc) (by decide)
    rw [if_neg fun hc => hdigit hc.2, if_neg fun hc => hupper hc.2, if_pos h, if_neg hdigit,
      if_neg hupper]

theorem parseHex4_eq (h : ∀ x ∈ [a, b, c, d], IsHexDigit x) :
    parseHex4 a b c d = some (codeUnit a b c d) := by
  simp only [List.forall_mem_cons] at h
  rw [parseHex4, hexValue_eq h.1, hexValue_eq h.2.1, hexValue_eq h.2.2.1, hexValue_eq h.2.2.2.1]
  rfl

theorem isHexDigit_of_hexValue (h : hexValue c ≠ none) : IsHexDigit c := by
  rw [hexValue] at h
  split at h
  · rename_i hc
    exact Or.inl hc
  split at h
  · rename_i hc
    exact Or.inr (Or.inl hc)
  split at h
  · rename_i hc
    exact Or.inr (Or.inr hc)
  · exact absurd rfl h

theorem parseHex4_inv {unit : ℕ} (h : parseHex4 a b c d = some unit) :
    (∀ x ∈ [a, b, c, d], IsHexDigit x) ∧ unit = codeUnit a b c d := by
  have hdigits : ∀ x ∈ [a, b, c, d], IsHexDigit x := by
    rw [parseHex4] at h
    split at h
    · rename_i ha hb hc hd
      simp only [List.forall_mem_cons]
      refine ⟨?_, ?_, ?_, ?_, List.forall_mem_nil _⟩
      · exact isHexDigit_of_hexValue (ha ▸ Option.some_ne_none _)
      · exact isHexDigit_of_hexValue (hb ▸ Option.some_ne_none _)
      · exact isHexDigit_of_hexValue (hc ▸ Option.some_ne_none _)
      · exact isHexDigit_of_hexValue (hd ▸ Option.some_ne_none _)
    · cases h
  refine ⟨hdigits, ?_⟩
  rw [parseHex4_eq hdigits] at h
  exact (Option.some.inj h).symm

theorem hexDigitValue_lt (h : IsHexDigit c) : hexDigitValue c < 16 := by
  have hbound : c.toNat ≤ 0x66 := by
    obtain h | h | h := h
    · exact Nat.le_trans (UInt8.le_iff_toNat_le.mp h.2) (by decide)
    · exact Nat.le_trans (UInt8.le_iff_toNat_le.mp h.2) (by decide)
    · exact UInt8.le_iff_toNat_le.mp h.2
  rw [hexDigitValue]
  split
  · rename_i hc
    have hle : c.toNat ≤ 0x39 := UInt8.le_iff_toNat_le.mp hc
    omega
  · split
    · rename_i hc
      have hle : c.toNat ≤ 0x46 := UInt8.le_iff_toNat_le.mp hc
      omega
    · omega

theorem codeUnit_lt (h : ∀ x ∈ [a, b, c, d], IsHexDigit x) : codeUnit a b c d < 0x10000 := by
  simp only [List.forall_mem_cons] at h
  have ha := hexDigitValue_lt h.1
  have hb := hexDigitValue_lt h.2.1
  have hc := hexDigitValue_lt h.2.2.1
  have hd := hexDigitValue_lt h.2.2.2.1
  rw [codeUnit]
  omega

theorem isLow_iff {unit : ℕ} : isLow unit = true ↔ IsLow unit := by
  rw [isLow, Bool.and_eq_true, decide_eq_true_eq, decide_eq_true_eq]
  rfl

theorem isHigh_iff {unit : ℕ} : isHigh unit = true ↔ IsHigh unit := by
  rw [isHigh, Bool.and_eq_true, decide_eq_true_eq, decide_eq_true_eq]
  rfl

/-! Steps of the reader. -/

theorem stringStep_plain (hquote : c ≠ QUOTE) (hbackslash : c ≠ BACKSLASH) :
    stringStep (c :: s) = .bytes [c] s := by
  rw [stringStep, if_neg hquote, if_neg hbackslash]

theorem stringStep_short {e : UInt8} (he : (e, c) ∈ SHORT_ESCAPES) :
    stringStep (BACKSLASH :: e :: s) = .bytes [c] s := by
  have hescapes : ∀ p ∈ SHORT_ESCAPES, shortEscape p.1 = some p.2 :=
    List.all_iff_forall_prop.mp (by decide)
  show escapeStep (e :: s) = _
  rw [escapeStep, hescapes _ he]

theorem stringStep_unicode :
    stringStep (BACKSLASH :: 0x75 :: s) = unicodeStep s := rfl

theorem codePoint_eq (h : ∀ x ∈ [a, b, c, d], IsHexDigit x) :
    codePoint (a :: b :: c :: d :: s) =
      if isLow (codeUnit a b c d) then none
      else if isHigh (codeUnit a b c d) then (lowSurrogate s).map fun low =>
        (0x10000 + (codeUnit a b c d - 0xD800) * 2 ^ 10 + (low.1 - 0xDC00), low.2)
      else some (codeUnit a b c d, s) := by
  rw [codePoint, parseHex4_eq h]

theorem lowSurrogate_eq (h : ∀ x ∈ [a, b, c, d], IsHexDigit x) :
    lowSurrogate (BACKSLASH :: 0x75 :: a :: b :: c :: d :: s) =
      if isLow (codeUnit a b c d) then some (codeUnit a b c d, s) else none := by
  rw [lowSurrogate, if_pos ⟨rfl, rfl⟩, parseHex4_eq h]

theorem stringStep_scalar (h : ∀ x ∈ [a, b, c, d], IsHexDigit x) {point : Char}
    (hpoint : point.toNat = codeUnit a b c d) :
    stringStep (BACKSLASH :: 0x75 :: a :: b :: c :: d :: s) =
      .bytes (String.utf8EncodeChar point) s := by
  have hvalid : point.toNat < 0xD800 ∨ 0xDFFF < point.toNat ∧ point.toNat < 0x110000 := point.valid
  have hlow : ¬ isLow (codeUnit a b c d) = true := by
    rw [isLow_iff, ← hpoint, IsLow]
    omega
  have hhigh : ¬ isHigh (codeUnit a b c d) = true := by
    rw [isHigh_iff, ← hpoint, IsHigh]
    omega
  rw [stringStep_unicode, unicodeStep, codePoint_eq h, if_neg hlow, if_neg hhigh, ← hpoint]
  exact congrArg (StringStep.bytes · s) (appendUtf8_toNat point)

/-- After a high surrogate a low one has to follow. -/
theorem stringStep_high (h : ∀ x ∈ [a, b, c, d], IsHexDigit x) (hhigh : IsHigh (codeUnit a b c d)) :
    stringStep (BACKSLASH :: 0x75 :: a :: b :: c :: d :: s) =
      match lowSurrogate s with
      | some low => .bytes (appendUtf8
          (0x10000 + (codeUnit a b c d - 0xD800) * 2 ^ 10 + (low.1 - 0xDC00))) low.2
      | none => .malformed := by
  have hlow : ¬ isLow (codeUnit a b c d) = true := by
    rw [isLow_iff, IsLow]
    have hle := hhigh.2
    omega
  rw [stringStep_unicode, unicodeStep, codePoint_eq h, if_neg hlow, if_pos (isHigh_iff.mpr hhigh)]
  cases lowSurrogate s <;> rfl

theorem readString_succ {fuel : ℕ} {out rest : Bytes} (hstep : stringStep s = .bytes out rest) :
    readString (fuel + 1) s = (readString fuel rest).map (out ++ ·) := by
  rw [readString, hstep]

theorem readString_of_spells (h : Spells s v) {fuel : ℕ} (hfuel : s.length < fuel) :
    readString fuel s = some v := by
  induction h generalizing fuel with
  | close s =>
    cases fuel with
    | zero => omega
    | succ fuel => rfl
  | plain hquote hbackslash _ ih =>
    rw [List.length_cons] at hfuel
    cases fuel with
    | zero => omega
    | succ fuel =>
      rw [readString_succ (stringStep_plain hquote hbackslash), ih (by omega)]
      rfl
  | short he _ ih =>
    rw [List.length_cons, List.length_cons] at hfuel
    cases fuel with
    | zero => omega
    | succ fuel =>
      rw [readString_succ (stringStep_short he), ih (by omega)]
      rfl
  | unicode hdigits hpoint _ ih =>
    simp only [List.length_cons] at hfuel
    cases fuel with
    | zero => omega
    | succ fuel =>
      rw [readString_succ (stringStep_scalar hdigits hpoint), ih (by omega)]
      rfl
  | @pair a b c d a' b' c' d' point s v hdigits hhigh hlow hpoint _ ih =>
    simp only [List.length_cons] at hfuel
    have hfirst : ∀ x ∈ [a, b, c, d], IsHexDigit x :=
      fun x hx => hdigits x (List.mem_append_left [a', b', c', d'] hx)
    have hsecond : ∀ x ∈ [a', b', c', d'], IsHexDigit x :=
      fun x hx => hdigits x (List.mem_append_right [a, b, c, d] hx)
    have hstep : stringStep (BACKSLASH :: 0x75 :: a :: b :: c :: d :: BACKSLASH :: 0x75 :: a' ::
        b' :: c' :: d' :: s) = .bytes (String.utf8EncodeChar point) s := by
      rw [stringStep_high hfirst hhigh, lowSurrogate_eq hsecond, if_pos (isLow_iff.mpr hlow),
        ← appendUtf8_toNat, hpoint]
      rfl
    cases fuel with
    | zero => omega
    | succ fuel =>
      rw [readString_succ hstep, ih (by omega)]
      rfl

theorem shortEscape_inv {e : UInt8} (h : shortEscape e = some c) : (e, c) ∈ SHORT_ESCAPES := by
  rw [shortEscape] at h
  split at h
  · rename_i he
    cases h
    obtain rfl | rfl | rfl := he <;> decide
  split at h
  · rename_i he
    cases h
    rw [he]
    decide
  split at h
  · rename_i he
    cases h
    rw [he]
    decide
  split at h
  · rename_i he
    cases h
    rw [he]
    decide
  split at h
  · rename_i he
    cases h
    rw [he]
    decide
  split at h
  · rename_i he
    cases h
    rw [he]
    decide
  · cases h

theorem lowSurrogate_inv {low : ℕ × Bytes} (h : lowSurrogate s = some low) :
    ∃ a b c d, s = BACKSLASH :: 0x75 :: a :: b :: c :: d :: low.2 ∧
      (∀ x ∈ [a, b, c, d], IsHexDigit x) ∧ IsLow (codeUnit a b c d) ∧ low.1 = codeUnit a b c d := by
  obtain _ | ⟨x, _ | ⟨y, _ | ⟨a, _ | ⟨b, _ | ⟨c, _ | ⟨d, s⟩⟩⟩⟩⟩⟩ := s
  all_goals try cases h
  rw [lowSurrogate] at h
  split at h
  · rename_i hescape
    obtain ⟨rfl, rfl⟩ := hescape
    split at h
    · rename_i unit hunit
      obtain ⟨hdigits, rfl⟩ := parseHex4_inv hunit
      split at h
      · rename_i hlow
        cases h
        exact ⟨a, b, c, d, rfl, hdigits, isLow_iff.mp hlow, rfl⟩
      · cases h
    · cases h
  · cases h

/-- What `\u` adds is the encoding of a code point, of one code unit or of a pair. -/
theorem spells_of_unicodeStep {out rest : Bytes} (h : unicodeStep s = .bytes out rest)
    (hv : Spells rest v) : Spells (BACKSLASH :: 0x75 :: s) (out ++ v) := by
  rw [unicodeStep] at h
  obtain _ | ⟨a, _ | ⟨b, _ | ⟨c, _ | ⟨d, s⟩⟩⟩⟩ := s
  all_goals try cases h
  rw [codePoint] at h
  cases hunit : parseHex4 a b c d with
  | none =>
    rw [hunit] at h
    cases h
  | some unit =>
    obtain ⟨hdigits, rfl⟩ := parseHex4_inv hunit
    have hlt := codeUnit_lt hdigits
    rw [hunit] at h
    simp only at h
    obtain hlow | hlow := Decidable.em (isLow (codeUnit a b c d) = true)
    · rw [if_pos hlow] at h
      cases h
    obtain hhigh | hhigh := Decidable.em (isHigh (codeUnit a b c d) = true)
    · rw [if_neg hlow, if_pos hhigh] at h
      cases hfound : lowSurrogate s with
      | none =>
        rw [hfound] at h
        cases h
      | some low =>
        rw [hfound, Option.map_some] at h
        obtain ⟨rfl, rfl⟩ := StringStep.bytes.inj h
        obtain ⟨a', b', c', d', rfl, hdigits', hlow', hunit'⟩ := lowSurrogate_inv hfound
        have hhigh' := isHigh_iff.mp hhigh
        have hle := hhigh'.2
        have hle' := hlow'.2
        have hvalid : 0xDFFF < 0x10000 + (codeUnit a b c d - 0xD800) * 0x400 +
            (codeUnit a' b' c' d' - 0xDC00) ∧ 0x10000 + (codeUnit a b c d - 0xD800) * 0x400 +
              (codeUnit a' b' c' d' - 0xDC00) < 0x110000 := by omega
        obtain ⟨point, hpoint⟩ := exists_char (Or.inr hvalid)
        have hpow : (2 : ℕ) ^ 10 = 0x400 := rfl
        rw [hunit', hpow, ← hpoint, appendUtf8_toNat]
        exact .pair (List.forall_mem_append.mpr ⟨hdigits, hdigits'⟩) hhigh' hlow' hpoint hv
    · rw [if_neg hlow, if_neg hhigh] at h
      cases h
      have hvalid : codeUnit a b c d < 0xD800 ∨ 0xDFFF < codeUnit a b c d ∧
          codeUnit a b c d < 0x110000 := by
        rw [isLow_iff, IsLow] at hlow
        rw [isHigh_iff, IsHigh] at hhigh
        omega
      obtain ⟨point, hpoint⟩ := exists_char hvalid
      rw [← hpoint, appendUtf8_toNat]
      exact .unicode hdigits hpoint hv

theorem spells_of_stringStep {out rest : Bytes} (h : stringStep s = .bytes out rest)
    (hv : Spells rest v) : Spells s (out ++ v) := by
  cases s with
  | nil => cases h
  | cons c s =>
    rw [stringStep] at h
    split at h
    · cases h
    · rename_i hquote
      split at h
      · rename_i hbackslash
        rw [hbackslash]
        cases s with
        | nil => cases h
        | cons e s =>
          rw [escapeStep] at h
          split at h
          · rename_i he
            cases h
            exact .short (shortEscape_inv he) hv
          · split at h
            · rename_i he
              rw [he]
              exact spells_of_unicodeStep h hv
            · cases h
      · rename_i hbackslash
        cases h
        exact .plain hquote hbackslash hv

theorem stringStep_close (h : stringStep s = .close) : ∃ rest, s = QUOTE :: rest := by
  cases s with
  | nil => cases h
  | cons c s =>
    rw [stringStep] at h
    split at h
    · rename_i hc
      exact ⟨s, by rw [hc]⟩
    · split at h
      · cases s with
        | nil => cases h
        | cons e s =>
          rw [escapeStep, unicodeStep] at h
          split at h
          · cases h
          · split at h
            · split at h <;> cases h
            · cases h
      · cases h

/-- What is read is what the text says. -/
theorem spells_of_readString {fuel : ℕ} (h : readString fuel s = some v) : Spells s v := by
  induction fuel generalizing s v with
  | zero => cases h
  | succ fuel ih =>
    cases hstep : stringStep s with
    | close =>
      obtain ⟨rest, rfl⟩ := stringStep_close hstep
      cases h
      exact .close rest
    | bytes out rest =>
      rw [readString_succ hstep] at h
      obtain ⟨v, hv, rfl⟩ := Option.map_eq_some_iff.mp h
      exact spells_of_stringStep hstep (ih hv)
    | malformed =>
      rw [readString, hstep] at h
      cases h

theorem stringAt_iff : stringAt s = some v ↔ ∃ rest, s = QUOTE :: rest ∧ Spells rest v := by
  cases s with
  | nil =>
    constructor
    · intro h
      cases h
    · rintro ⟨rest, h, _⟩
      cases h
  | cons c s =>
    rw [stringAt]
    constructor
    · intro h
      split at h
      · rename_i hc
        exact ⟨s, by rw [hc], spells_of_readString h⟩
      · cases h
    · rintro ⟨rest, hrest, h⟩
      cases hrest
      rw [if_pos rfl]
      exact readString_of_spells h (Nat.lt_succ_self _)

/-! Strings of a JSON text. -/

/-- What follows a backslash in a string that the grammar allows. -/
theorem chars_unicode_inv (h : Chars (BACKSLASH :: 0x75 :: a :: b :: c :: d :: s) t) :
    Chars s t := by
  cases h with
  | plain _ _ hbackslash => exact absurd rfl hbackslash
  | short hc => exact absurd hc not_isShortEscape_unicode
  | unicode _ _ _ _ h => exact h

theorem unescapes_of_spells (h : Spells s v) (hchars : Chars s t) : Unescapes s v t := by
  induction h with
  | close s =>
    cases hchars with
    | close => exact .close _
    | plain _ hquote => exact absurd rfl hquote
  | plain hquote hbackslash _ ih =>
    cases hchars with
    | close => exact absurd rfl hquote
    | plain hcontrol _ _ hchars => exact .plain hcontrol hquote hbackslash (ih hchars)
    | short => exact absurd rfl hbackslash
    | unicode => exact absurd rfl hbackslash
  | short he _ ih =>
    cases hchars with
    | plain _ _ hbackslash => exact absurd rfl hbackslash
    | short _ hchars => exact .short he (ih hchars)
    | unicode =>
      have hall : ∀ p ∈ SHORT_ESCAPES, p.1 ≠ 0x75 := List.all_iff_forall_prop.mp (by decide)
      exact absurd rfl (hall _ he)
  | unicode hdigits hpoint _ ih => exact .unicode hdigits hpoint (ih (chars_unicode_inv hchars))
  | pair hdigits hhigh hlow hpoint _ ih =>
    exact .pair hdigits hhigh hlow hpoint (ih (chars_unicode_inv (chars_unicode_inv hchars)))

theorem spells_of_unescapes (h : Unescapes s v t) : Spells s v := by
  induction h with
  | close s => exact .close s
  | plain _ hquote hbackslash _ ih => exact .plain hquote hbackslash ih
  | short he _ ih => exact .short he ih
  | unicode hdigits hpoint _ ih => exact .unicode hdigits hpoint ih
  | pair hdigits hhigh hlow hpoint _ ih => exact .pair hdigits hhigh hlow hpoint ih

variable {m : Member}

theorem spells_iff (h : m.Placed) : (∃ s, m.value = QUOTE :: s ∧ Spells s v) ↔ m.IsString v := by
  constructor
  · rintro ⟨s, hvalue, hs⟩
    have hquoted := h.value
    rw [hvalue] at hquoted
    exact ⟨s, hvalue, unescapes_of_spells hs (chars_of_value hquoted)⟩
  · rintro ⟨s, hvalue, hs⟩
    exact ⟨s, hvalue, spells_of_unescapes hs⟩

/-! Words. -/

section Words

variable {α : Type} {p : α → Bool} {l : List α}

theorem takeWhile_nil_of_head (h : ∀ x ∈ l.head?, p x = false) : l.takeWhile p = [] := by
  cases l with
  | nil => rfl
  | cons x l => rw [List.takeWhile_cons, h x rfl, if_neg Bool.false_ne_true]

theorem dropWhile_self_of_head (h : ∀ x ∈ l.head?, p x = false) : l.dropWhile p = l := by
  cases l with
  | nil => rfl
  | cons x l => rw [List.dropWhile_cons, h x rfl, if_neg Bool.false_ne_true]

theorem head_dropWhile (p : α → Bool) (l : List α) : ∀ x ∈ (l.dropWhile p).head?, p x = false := by
  intro x hx
  have hnot := List.head?_dropWhile_not p l
  rw [hx] at hnot
  exact hnot

end Words

theorem isspace_iff : isspace c = true ↔ IsBlank c := by
  rw [isspace, Bool.or_eq_true, Bool.and_eq_true, decide_eq_true_iff, decide_eq_true_iff,
    decide_eq_true_iff, IsBlank]
  simp only [List.mem_cons, List.not_mem_nil, or_false, UInt8.le_iff_toNat_le,
    ← UInt8.toNat_inj, UInt8.reduceToNat]
  omega

theorem isspace_eq_false_iff : isspace c = false ↔ ¬ IsBlank c := by
  rw [← isspace_iff, Bool.not_eq_true]

theorem isdigit_iff : isdigit c = true ↔ IsDigit c := by
  rw [isdigit, Bool.and_eq_true, decide_eq_true_eq, decide_eq_true_eq]
  rfl

theorem isdigit_eq_false_iff : isdigit c = false ↔ ¬ IsDigit c := by
  rw [← isdigit_iff, Bool.not_eq_true]

/-! Numbers. -/

variable {digits rest : Bytes}

theorem Decimal.takeWhile (h : Decimal digits rest) :
    (digits ++ rest).takeWhile isdigit = digits := by
  have hrest : rest.takeWhile isdigit = [] :=
    takeWhile_nil_of_head fun c hc => isdigit_eq_false_iff.mpr (h.rest c hc)
  rw [List.takeWhile_append_of_pos fun c hc => isdigit_iff.mpr (h.digits c hc), hrest,
    List.append_nil]

theorem decimal_takeWhile (h : s.takeWhile isdigit ≠ []) :
    Decimal (s.takeWhile isdigit) (s.dropWhile isdigit) where
  ne := h
  digits := fun _ hc => isdigit_iff.mp (List.mem_takeWhile_imp hc)
  rest := fun c hc => isdigit_eq_false_iff.mp (head_dropWhile isdigit s c hc)

/-- The number after more digits. -/
def digitsFrom (n : ℕ) (digits : Bytes) : ℕ :=
  digits.foldl (fun n c => n * 10 + (c.toNat - 0x30)) n

theorem le_digitsFrom (n : ℕ) (digits : Bytes) : n ≤ digitsFrom n digits := by
  induction digits generalizing n with
  | nil => exact Nat.le_refl n
  | cons c digits ih =>
    have hle := ih (n * 10 + (c.toNat - 0x30))
    rw [digitsFrom, List.foldl_cons]
    rw [digitsFrom] at hle
    omega

theorem readUint_end {acc : Option ℕ} (h : ∀ c ∈ rest.head?, ¬ IsDigit c) :
    readUint acc rest = acc := by
  cases rest with
  | nil => rw [readUint]
  | cons c rest => rw [readUint, isdigit_eq_false_iff.mpr (h c rfl), if_neg Bool.false_ne_true]

/-- The reader takes the digits up to the first other byte, if they do not pass the bound. -/
theorem readUint_digits {acc : Option ℕ} (h : Decimal digits rest) :
    readUint acc (digits ++ rest) =
      if digitsFrom (acc.getD 0) digits ≤ 0xFFFFFFFF then some (digitsFrom (acc.getD 0) digits)
      else none := by
  induction digits generalizing acc with
  | nil => exact absurd rfl h.ne
  | cons d digits ih =>
    have hd : isdigit d = true := isdigit_iff.mpr (h.digits d List.mem_cons_self)
    have hnext : digitsFrom (acc.getD 0) (d :: digits) =
        digitsFrom (acc.getD 0 * 10 + (d.toNat - 0x30)) digits := rfl
    have hle := le_digitsFrom (acc.getD 0 * 10 + (d.toNat - 0x30)) digits
    rw [List.cons_append, readUint, if_pos hd, hnext]
    obtain hover | hover := Nat.lt_or_ge 0xFFFFFFFF (acc.getD 0 * 10 + (d.toNat - 0x30))
    · rw [if_pos hover, if_neg (by omega)]
    · rw [if_neg (by omega)]
      cases digits with
      | nil =>
        rw [List.nil_append, readUint_end h.rest]
        exact (if_pos hover).symm
      | cons e digits =>
        exact ih ⟨List.cons_ne_nil e digits, fun x hx => h.digits x (List.mem_cons_of_mem d hx),
          h.rest⟩

theorem readUint_iff {n : ℕ} : readUint none s = some n ↔
    ∃ digits rest, s = digits ++ rest ∧ Decimal digits rest ∧ decimalValue digits = n ∧
      n < 2 ^ 32 := by
  have hread : ∀ {digits rest}, Decimal digits rest → readUint none (digits ++ rest) =
      if decimalValue digits ≤ 0xFFFFFFFF then some (decimalValue digits) else none :=
    fun h => readUint_digits h
  constructor
  · intro h
    have hne : s.takeWhile isdigit ≠ [] := by
      intro hnil
      rw [readUint_end] at h
      · cases h
      · intro c hc hdigit
        cases s with
        | nil => cases hc
        | cons d s =>
          cases hc
          rw [List.takeWhile_cons, isdigit_iff.mpr hdigit, if_pos rfl] at hnil
          cases hnil
    have hs : s = s.takeWhile isdigit ++ s.dropWhile isdigit := List.takeWhile_append_dropWhile.symm
    have hdecimal := decimal_takeWhile hne
    rw [hs, hread hdecimal] at h
    split at h
    · rename_i hle
      cases h
      exact ⟨_, _, hs, hdecimal, rfl, by omega⟩
    · cases h
  · rintro ⟨digits, rest, rfl, h, rfl, hlt⟩
    rw [hread h, if_pos (by omega)]

/-! Numbers of a JSON text. -/

theorem unsigned_of_value (h : Value (c :: s) t) (hc : IsDigit c) : Unsigned (c :: s) t := by
  obtain ⟨rfl, _⟩ | ⟨rfl, _⟩ | ⟨mode, hmode, hphrase⟩ := value_cons (k := .array) h
  · exact absurd hc (by decide)
  · exact absurd hc (by decide)
  · obtain rfl | hzero := Decidable.em (c = 0x30)
    · cases hmode
      exact unsigned_cons_iff.mpr (Or.inl ⟨rfl, hphrase⟩)
    · cases (startMode_digit hc hzero).symm.trans hmode
      exact unsigned_cons_iff.mpr (Or.inr ⟨hc, hzero, hphrase⟩)

/-- What stands between the digits of a number and its end. -/
theorem unsigned_text (h : Unsigned s t) : ∃ u p, Natural s u ∧ u = p ++ t ∧
    ∀ c ∈ p.head?, ¬ IsDigit c := by
  have hmarks : ∀ e ∈ bytes "eE", ¬ IsDigit e := List.all_iff_forall_prop.mp (by decide)
  have hpoint : ¬ IsDigit POINT := by decide
  have hexponents : ∀ {u t}, Exponent u t → ∃ q, u = q ++ t ∧ ∀ c ∈ q.head?, ¬ IsDigit c := by
    intro u t h
    cases h with
    | none => exact ⟨[], rfl, fun c hc => absurd hc (Option.not_mem_none c)⟩
    | @digits e _ _ he h =>
      obtain ⟨digits, rfl, _⟩ := digits_text h
      exact ⟨e :: digits, rfl, fun c hc => Option.some.inj hc ▸ hmarks e he⟩
    | @signed e sign _ _ he _ h =>
      obtain ⟨digits, rfl, _⟩ := digits_text h
      exact ⟨e :: sign :: digits, rfl, fun c hc => Option.some.inj hc ▸ hmarks e he⟩
  obtain ⟨hint, hfraction, hexponent⟩ := h
  obtain ⟨q, rfl, hq⟩ := hexponents hexponent
  cases hfraction with
  | none => exact ⟨_, q, hint, rfl, hq⟩
  | digits h =>
    obtain ⟨digits, rfl, _⟩ := digits_text h
    refine ⟨_, POINT :: (digits ++ q), hint, ?_, fun c hc => Option.some.inj hc ▸ hpoint⟩
    rw [List.cons_append, List.append_assoc]

/-- A value of digits only is a number without a leading zero. -/
theorem natural_of_decimal (h : Value (digits ++ rest) rest) (hdecimal : Decimal digits rest) :
    Natural (digits ++ rest) rest := by
  have hunsigned : Unsigned (digits ++ rest) rest := by
    cases digits with
    | nil => exact absurd rfl hdecimal.ne
    | cons d digits => exact unsigned_of_value h (hdecimal.digits d List.mem_cons_self)
  obtain ⟨u, p, hnatural, rfl, hp⟩ := unsigned_text hunsigned
  obtain ⟨ds, htext, _, _⟩ := natural_text hnatural
  cases p with
  | nil => exact hnatural
  | cons c p =>
    rw [← List.append_assoc] at htext
    have hmem : c ∈ digits := by
      rw [List.append_cancel_right htext]
      exact List.mem_append_right ds List.mem_cons_self
    exact absurd (hdecimal.digits c hmem) (hp c rfl)

/-- The value goes on after digits that do not pass the bound. -/
def CutShort (m : Member) : Prop :=
  ∃ digits rest, m.value = digits ++ rest ∧ Decimal digits rest ∧ decimalValue digits < 2 ^ 32 ∧
    rest ≠ m.rest

theorem decimal_iff (h : m.Placed) (hcut : ¬ CutShort m) {n : ℕ} (hlt : n < 2 ^ 32) :
    (∃ digits rest, m.value = digits ++ rest ∧ Decimal digits rest ∧ decimalValue digits = n) ↔
      m.IsUnsigned n := by
  constructor
  · rintro ⟨digits, rest, hvalue, hdecimal, rfl⟩
    have hrest : rest = m.rest := by
      by_contra hne
      exact hcut ⟨digits, rest, hvalue, hdecimal, hlt, hne⟩
    rw [hrest] at hvalue hdecimal
    have hnatural := h.value
    rw [hvalue] at hnatural
    refine ⟨?_, digits, hvalue, rfl⟩
    rw [hvalue]
    exact natural_of_decimal hnatural hdecimal
  · rintro ⟨hnatural, digits, hvalue, hn⟩
    obtain ⟨ds, htext, hne, hdigits⟩ := natural_text hnatural
    obtain ⟨c, u, hrest, hc⟩ := h.rest
    cases List.append_cancel_right (htext.symm.trans hvalue)
    refine ⟨digits, m.rest, hvalue, ⟨hne, hdigits, ?_⟩, hn⟩
    rw [hrest]
    intro d hd
    rw [← Option.some.inj hd]
    exact hc

/-! Places. -/

variable {pattern line name before after : Bytes}

theorem find_isSome (h : line = before ++ pattern ++ after) : find pattern line ≠ none := by
  induction before generalizing line with
  | nil =>
    rw [h, List.nil_append]
    cases hline : pattern ++ after with
    | nil =>
      rw [find, if_pos (List.append_eq_nil_iff.mp hline).1]
      exact Option.some_ne_none _
    | cons c s =>
      rw [find, if_pos ⟨after, hline⟩]
      exact Option.some_ne_none _
  | cons c before ih =>
    rw [h, List.cons_append, List.cons_append, find]
    split
    · exact Option.some_ne_none _
    · exact ih rfl

theorem firstAt_of_find (h : find pattern line = some rest) :
    ∃ before after, FirstAt pattern before after line ∧ rest = pattern ++ after := by
  induction line with
  | nil =>
    rw [find] at h
    split at h
    · rename_i hpattern
      cases h
      exact ⟨[], [], ⟨by rw [hpattern]; rfl, fun _ _ _ => Nat.zero_le _⟩, by rw [hpattern]; rfl⟩
    · cases h
  | cons c s ih =>
    rw [find] at h
    split at h
    · rename_i hprefix
      cases h
      obtain ⟨after, hafter⟩ := hprefix
      exact ⟨[], after, ⟨hafter.symm, fun _ _ _ => Nat.zero_le _⟩, hafter.symm⟩
    · rename_i hprefix
      obtain ⟨before, after, hfirst, hrest⟩ := ih h
      refine ⟨c :: before, after, ⟨by rw [hfirst.split]; rfl, ?_⟩, hrest⟩
      intro before' after' hsplit
      cases before' with
      | nil => exact absurd ⟨after', hsplit.symm⟩ hprefix
      | cons d before' =>
        have hle := hfirst.first before' after' (List.cons.inj hsplit).2
        exact Nat.succ_le_succ hle

theorem firstAt_unique {before' after' : Bytes} (h : FirstAt pattern before after line)
    (h' : FirstAt pattern before' after' line) : after = after' := by
  have hlength : before.length = before'.length :=
    Nat.le_antisymm (h.first _ _ h'.split) (h'.first _ _ h.split)
  have hsplit := h.split.symm.trans h'.split
  rw [List.append_assoc, List.append_assoc] at hsplit
  exact List.append_cancel_left (List.append_inj hsplit hlength).2

theorem find_iff : find pattern line = some rest ↔
    ∃ before after, FirstAt pattern before after line ∧ rest = pattern ++ after := by
  constructor
  · exact firstAt_of_find
  · rintro ⟨before, after, h, rfl⟩
    obtain ⟨found, hfound⟩ := Option.ne_none_iff_exists'.mp (find_isSome h.split)
    obtain ⟨before', after', h', rfl⟩ := firstAt_of_find hfound
    rw [hfound, firstAt_unique h h']

theorem findFieldValue_iff : findFieldValue line name = some rest ↔ AfterField line name rest := by
  rw [findFieldValue, Option.map_eq_some_iff]
  constructor
  · rintro ⟨found, hfound, rfl⟩
    obtain ⟨before, after, hfirst, rfl⟩ := find_iff.mp hfound
    rw [List.drop_left]
    refine ⟨before, after.takeWhile isspace, ?_, ?_, ?_⟩
    · rw [List.takeWhile_append_dropWhile]
      exact hfirst
    · exact fun c hc => isspace_iff.mp (List.mem_takeWhile_imp hc)
    · exact fun c hc => isspace_eq_false_iff.mp (head_dropWhile isspace after c hc)
  · rintro ⟨before, gap, hfirst, hgap, hrest⟩
    refine ⟨fieldPattern name ++ (gap ++ rest), find_iff.mpr ⟨before, _, hfirst, rfl⟩, ?_⟩
    rw [List.drop_left, List.dropWhile_append_of_pos fun c hc => isspace_iff.mpr (hgap c hc)]
    exact dropWhile_self_of_head fun c hc => isspace_eq_false_iff.mpr (hrest c hc)

theorem findStringField_iff : findStringField line name = some v ↔ FirstString line name v := by
  rw [findStringField, Option.bind_eq_some_iff]
  constructor
  · rintro ⟨rest, hrest, hread⟩
    obtain ⟨s, rfl, hs⟩ := stringAt_iff.mp hread
    exact ⟨s, findFieldValue_iff.mp hrest, hs⟩
  · rintro ⟨s, hfollows, hs⟩
    exact ⟨QUOTE :: s, findFieldValue_iff.mpr hfollows, stringAt_iff.mpr ⟨s, rfl, hs⟩⟩

theorem findUintField_iff {value : UInt32} : findUintField line name = some value ↔
    ∃ n, FirstUnsigned line name n ∧ n < 2 ^ 32 ∧ UInt32.ofNat n = value := by
  rw [findUintField, Option.bind_eq_some_iff]
  constructor
  · rintro ⟨found, hfound, hread⟩
    obtain ⟨n, hn, hvalue⟩ := Option.map_eq_some_iff.mp hread
    obtain ⟨digits, rest, rfl, hdecimal, hdigits, hlt⟩ := readUint_iff.mp hn
    exact ⟨n, ⟨digits, rest, findFieldValue_iff.mp hfound, hdecimal, hdigits⟩, hlt, hvalue⟩
  · rintro ⟨n, ⟨digits, rest, hfollows, hdecimal, hdigits⟩, hlt, hvalue⟩
    refine ⟨digits ++ rest, findFieldValue_iff.mpr hfollows, Option.map_eq_some_iff.mpr ⟨n, ?_,
      hvalue⟩⟩
    exact readUint_iff.mpr ⟨digits, rest, rfl, hdecimal, hdigits, hlt⟩

end Gempba.Telemetry
