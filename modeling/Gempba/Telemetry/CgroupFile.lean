import Gempba.Library.JsonValues
import Gempba.Telemetry.FieldReader
import Gempba.Telemetry.Inbox
import Mathlib.Data.Nat.Digits.Defs

/-!
# The number in a file of a control group

A file says the number that its first word begins with. A file that is missing
or empty, the word of the kernel for no limit, other words and numbers that are
too large say 0.
-/

namespace Gempba.Telemetry

set_option autoImplicit false

open Json (bytes decimalValue MINUS PLUS IsDigit)

def unsigned (s : Bytes) : Bytes :=
  if s.head? = some MINUS ∨ s.head? = some PLUS then s.tail else s

/-- `none` where it throws: there is no digit, or the number is out of range. -/
def stoull (token : Bytes) : Option UInt64 :=
  let s := token.dropWhile isspace
  let digits := (unsigned s).takeWhile isdigit
  if digits = [] ∨ 2 ^ 64 ≤ decimalValue digits then none
  else if s.head? = some MINUS then some (-UInt64.ofNat (decimalValue digits))
  else some (UInt64.ofNat (decimalValue digits))

/-- The number in a file. -/
def cgroupUint : Option Bytes → UInt64
  | none => 0
  | some content =>
    let token := (content.dropWhile isspace).takeWhile fun c => !isspace c
    if token = [] ∨ token = bytes "max" then 0 else (stoull token).getD 0

/-! What a file says. -/

def number (digits : Bytes) : ℕ := Nat.ofDigits 10 (digits.reverse.map fun c => c.toNat - 0x30)

/-- A word that begins with a number: a sign, digits, and a rest that does not go on with one. -/
structure Numeral (sign digits rest : Bytes) : Prop extends Decimal digits rest where
  sign : sign = [] ∨ sign = [PLUS] ∨ sign = [MINUS]

/-- A negative number is taken modulo 2^64, as the conversion does. -/
inductive WordSays : Bytes → UInt64 → Prop
  | max : WordSays (bytes "max") 0
  | numeral {sign digits rest : Bytes} (h : Numeral sign digits rest)
    (hlt : number digits < 2 ^ 64) :
    WordSays (sign ++ digits ++ rest)
      (if sign = [MINUS] then -UInt64.ofNat (number digits) else UInt64.ofNat (number digits))
  | tooLarge {sign digits rest : Bytes} (h : Numeral sign digits rest)
    (hle : 2 ^ 64 ≤ number digits) : WordSays (sign ++ digits ++ rest) 0
  | other {word : Bytes} (h : ∀ sign digits rest, Numeral sign digits rest →
    word ≠ sign ++ digits ++ rest) : WordSays word 0

inductive FileSays : Option Bytes → UInt64 → Prop
  | missing : FileSays none 0
  | empty {content : Bytes} (h : ∀ c ∈ content, IsBlank c) : FileSays (some content) 0
  | word {before word after : Bytes} {n : UInt64} (hbefore : ∀ c ∈ before, IsBlank c)
    (hne : word ≠ []) (hword : ∀ c ∈ word, ¬ IsBlank c) (hafter : ∀ c ∈ after.head?, IsBlank c)
    (hn : WordSays word n) : FileSays (some (before ++ word ++ after)) n

/-! The reader and the file agree. -/

section Characters

variable {c : UInt8}

theorem not_isBlank_of_isDigit (h : IsDigit c) : ¬ IsBlank c := by
  rw [IsDigit] at h
  rw [IsBlank]
  simp only [List.mem_cons, List.not_mem_nil, or_false, UInt8.le_iff_toNat_le,
    ← UInt8.toNat_inj, UInt8.reduceToNat] at h ⊢
  omega

theorem ne_of_isDigit (h : IsDigit c) : c ≠ MINUS ∧ c ≠ PLUS := by
  constructor
  · rintro rfl
    exact absurd h (by decide)
  · rintro rfl
    exact absurd h (by decide)

end Characters

theorem digitsFrom_eq (n : ℕ) (digits : Bytes) :
    digitsFrom n digits = n * 10 ^ digits.length + number digits := by
  induction digits generalizing n with
  | nil => simp [digitsFrom, number]
  | cons c digits ih =>
    have hnext : digitsFrom n (c :: digits) = digitsFrom (n * 10 + (c.toNat - 0x30)) digits := rfl
    rw [hnext, ih, number, number, List.reverse_cons, List.map_append, Nat.ofDigits_append,
      List.length_map, List.length_reverse, List.length_cons, pow_succ]
    simp only [List.map_cons, List.map_nil, Nat.ofDigits_singleton]
    ring

theorem decimalValue_eq (digits : Bytes) : decimalValue digits = number digits := by
  have hzero := digitsFrom_eq 0 digits
  rwa [Nat.zero_mul, Nat.zero_add] at hzero

/-! A signed number. -/

section Numerals

variable {sign digits rest : Bytes}

theorem Numeral.head (h : Numeral sign digits rest) :
    ∃ c s, sign ++ digits ++ rest = c :: s ∧ ¬ IsBlank c ∧ (c = MINUS ↔ sign = [MINUS]) ∧
      unsigned (c :: s) = digits ++ rest := by
  obtain ⟨d, ds, rfl⟩ := List.exists_cons_of_ne_nil h.ne
  have hd := h.digits d List.mem_cons_self
  obtain rfl | rfl | rfl := h.sign
  · have hne := ne_of_isDigit hd
    refine ⟨d, ds ++ rest, rfl, not_isBlank_of_isDigit hd, ?_, ?_⟩
    · exact ⟨fun heq => absurd heq hne.1, fun heq => absurd heq (List.cons_ne_nil _ _).symm⟩
    · refine if_neg ?_
      rintro (heq | heq)
      · exact hne.1 (Option.some.inj heq)
      · exact hne.2 (Option.some.inj heq)
  · refine ⟨PLUS, d :: ds ++ rest, rfl, by decide, ?_, if_pos (Or.inr rfl)⟩
    exact ⟨fun heq => absurd heq (by decide), fun heq => absurd heq (by decide)⟩
  · exact ⟨MINUS, d :: ds ++ rest, rfl, by decide, iff_of_true rfl rfl, if_pos (Or.inl rfl)⟩

theorem stoull_numeral (h : Numeral sign digits rest) :
    stoull (sign ++ digits ++ rest) =
      if 2 ^ 64 ≤ number digits then none
      else some (if sign = [MINUS] then -UInt64.ofNat (number digits)
        else UInt64.ofNat (number digits)) := by
  obtain ⟨c, s, hword, hc, hminus, hskip⟩ := h.head
  have hspace : (c :: s).dropWhile isspace = c :: s := by
    refine dropWhile_self_of_head fun d hd => ?_
    rw [← Option.some.inj hd]
    exact isspace_eq_false_iff.mpr hc
  have hdigits : (unsigned (c :: s)).takeWhile isdigit = digits := by
    rw [hskip]
    exact h.toDecimal.takeWhile
  have hhead : (c :: s).head? = some MINUS ↔ sign = [MINUS] := by
    rw [← hminus]
    exact Option.some_inj
  rw [hword, stoull, hspace]
  simp only [hdigits, decimalValue_eq, h.ne, false_or, hhead]
  split
  · rfl
  · split
    · rfl
    · rfl

/-- The digits that the conversion finds are those of a number. -/
theorem exists_numeral {c : UInt8} {s : Bytes}
    (h : (unsigned (c :: s)).takeWhile isdigit ≠ []) :
    ∃ sign digits rest, c :: s = sign ++ digits ++ rest ∧ Numeral sign digits rest := by
  have hsign : ∃ sign : Bytes, (sign = [] ∨ sign = [PLUS] ∨ sign = [MINUS]) ∧
      c :: s = sign ++ unsigned (c :: s) := by
    rw [unsigned]
    split
    · rename_i hhead
      obtain hhead | hhead := hhead
      · exact ⟨[MINUS], Or.inr (Or.inr rfl), by rw [Option.some.inj hhead]; rfl⟩
      · exact ⟨[PLUS], Or.inr (Or.inl rfl), by rw [Option.some.inj hhead]; rfl⟩
    · exact ⟨[], Or.inl rfl, rfl⟩
  obtain ⟨sign, hsign, hs⟩ := hsign
  refine ⟨sign, (unsigned (c :: s)).takeWhile isdigit, (unsigned (c :: s)).dropWhile isdigit, ?_,
    decimal_takeWhile h, hsign⟩
  rw [List.append_assoc, List.takeWhile_append_dropWhile]
  exact hs

theorem stoull_other {word : Bytes} (hword : ∀ c ∈ word, ¬ IsBlank c)
    (h : ∀ sign digits rest, Numeral sign digits rest → word ≠ sign ++ digits ++ rest) :
    stoull word = none := by
  cases word with
  | nil => rfl
  | cons c s =>
    have hspace : (c :: s).dropWhile isspace = c :: s := by
      refine dropWhile_self_of_head fun d hd => ?_
      rw [← Option.some.inj hd]
      exact isspace_eq_false_iff.mpr (hword c List.mem_cons_self)
    have hdigits : (unsigned (c :: s)).takeWhile isdigit = [] := by
      by_contra hne
      obtain ⟨sign, digits, rest, heq, hnumeral⟩ := exists_numeral hne
      exact h sign digits rest hnumeral heq
    rw [stoull, hspace]
    simp only [hdigits, true_or, if_true]

theorem Numeral.ne_max (h : Numeral sign digits rest) : sign ++ digits ++ rest ≠ bytes "max" := by
  obtain ⟨c, s, hword, -, -, hskip⟩ := h.head
  intro hmax
  rw [← hword, hmax] at hskip
  have hdigits := h.toDecimal.takeWhile
  rw [← hskip] at hdigits
  exact h.ne hdigits.symm

end Numerals

/-- What the reader makes of a word. -/
theorem wordSays_iff {word : Bytes} {n : UInt64} (hword : ∀ c ∈ word, ¬ IsBlank c) :
    WordSays word n ↔ (if word = bytes "max" then 0 else (stoull word).getD 0) = n := by
  constructor
  · intro h
    cases h with
    | max => exact if_pos rfl
    | numeral h hlt =>
      rw [if_neg h.ne_max, stoull_numeral h, if_neg (Nat.not_le.mpr hlt)]
      rfl
    | tooLarge h hle =>
      rw [if_neg h.ne_max, stoull_numeral h, if_pos hle]
      rfl
    | other h =>
      rw [stoull_other hword h]
      exact ite_self 0
  · rintro rfl
    obtain hex | hnone := Classical.em (∃ sign digits rest,
      Numeral sign digits rest ∧ word = sign ++ digits ++ rest)
    · obtain ⟨sign, digits, rest, h, rfl⟩ := hex
      rw [if_neg h.ne_max, stoull_numeral h]
      obtain hlt | hle := Nat.lt_or_ge (number digits) (2 ^ 64)
      · rw [if_neg (Nat.not_le.mpr hlt)]
        exact WordSays.numeral h hlt
      · rw [if_pos hle]
        exact WordSays.tooLarge h hle
    · have hother : ∀ sign digits rest, Numeral sign digits rest →
          word ≠ sign ++ digits ++ rest := fun sign digits rest h heq =>
        hnone ⟨sign, digits, rest, h, heq⟩
      rw [stoull_other hword hother]
      have hzero : (if word = bytes "max" then 0 else (none : Option UInt64).getD 0) = 0 :=
        ite_self 0
      rw [hzero]
      exact WordSays.other hother

theorem cgroupUint_word {before word after : Bytes} (hbefore : ∀ c ∈ before, IsBlank c)
    (hne : word ≠ []) (hword : ∀ c ∈ word, ¬ IsBlank c) (hafter : ∀ c ∈ after.head?, IsBlank c) :
    cgroupUint (some (before ++ word ++ after)) =
      if word = bytes "max" then 0 else (stoull word).getD 0 := by
  obtain ⟨c, s, rfl⟩ := List.exists_cons_of_ne_nil hne
  have hdrop : (before ++ (c :: s) ++ after).dropWhile isspace = c :: s ++ after := by
    rw [List.append_assoc, List.dropWhile_append_of_pos fun d hd => isspace_iff.mpr (hbefore d hd)]
    refine dropWhile_self_of_head fun d hd => ?_
    rw [← Option.some.inj hd]
    exact isspace_eq_false_iff.mpr (hword c List.mem_cons_self)
  have htoken : (c :: s ++ after).takeWhile (fun c => !isspace c) = c :: s := by
    have hrest : after.takeWhile (fun c => !isspace c) = [] := by
      refine takeWhile_nil_of_head fun d hd => ?_
      rw [isspace_iff.mpr (hafter d hd)]
      rfl
    rw [List.takeWhile_append_of_pos, hrest, List.append_nil]
    intro d hd
    rw [isspace_eq_false_iff.mpr (hword d hd)]
    rfl
  rw [cgroupUint, hdrop]
  simp only [htoken, hne, false_or]

theorem cgroupUint_empty {content : Bytes} (h : ∀ c ∈ content, IsBlank c) :
    cgroupUint (some content) = 0 := by
  have hdrop : content.dropWhile isspace = [] := by
    rw [List.dropWhile_eq_nil_iff]
    exact fun c hc => isspace_iff.mpr (h c hc)
  rw [cgroupUint, hdrop]
  rfl

theorem fileSays_iff {content : Option Bytes} {n : UInt64} :
    FileSays content n ↔ cgroupUint content = n := by
  constructor
  · intro h
    cases h with
    | missing => rfl
    | empty h => exact cgroupUint_empty h
    | word hbefore hne hword hafter hn =>
      rw [cgroupUint_word hbefore hne hword hafter]
      exact (wordSays_iff hword).mp hn
  · rintro rfl
    cases content with
    | none => exact FileSays.missing
    | some content =>
      obtain hblank | hsome := Classical.em (∀ c ∈ content, IsBlank c)
      · rw [cgroupUint_empty hblank]
        exact FileSays.empty hblank
      · -- the content is cut around its first word
        have hcut : content = content.takeWhile isspace ++
            ((content.dropWhile isspace).takeWhile fun c => !isspace c) ++
            ((content.dropWhile isspace).dropWhile fun c => !isspace c) := by
          rw [List.append_assoc, List.takeWhile_append_dropWhile, List.takeWhile_append_dropWhile]
        have hbefore : ∀ c ∈ content.takeWhile isspace, IsBlank c := fun c hc =>
          isspace_iff.mp (List.mem_takeWhile_imp hc)
        have hword : ∀ c ∈ (content.dropWhile isspace).takeWhile fun c => !isspace c,
            ¬ IsBlank c := by
          intro c hc
          have hnot := List.mem_takeWhile_imp hc
          rw [Bool.not_eq_true'] at hnot
          exact isspace_eq_false_iff.mp hnot
        have hafter : ∀ c ∈ ((content.dropWhile isspace).dropWhile fun c => !isspace c).head?,
            IsBlank c := by
          intro c hc
          have hnot := head_dropWhile (fun c => !isspace c) _ c hc
          rw [Bool.not_eq_false'] at hnot
          exact isspace_iff.mp hnot
        have hne : ((content.dropWhile isspace).takeWhile fun c => !isspace c) ≠ [] := by
          intro hnil
          cases hdrop : content.dropWhile isspace with
          | nil =>
            rw [List.dropWhile_eq_nil_iff] at hdrop
            exact hsome fun c hc => isspace_iff.mp (hdrop c hc)
          | cons c s =>
            have hc : isspace c = false := head_dropWhile isspace content c (by rw [hdrop]; rfl)
            rw [hdrop, List.takeWhile_cons, hc] at hnil
            exact List.cons_ne_nil _ _ hnil
        generalize content.takeWhile isspace = before at *
        generalize (content.dropWhile isspace).takeWhile (fun c => !isspace c) = word at *
        generalize (content.dropWhile isspace).dropWhile (fun c => !isspace c) = after at *
        rw [hcut, cgroupUint_word hbefore hne hword hafter]
        exact FileSays.word hbefore hne hword hafter ((wordSays_iff hword).mpr rfl)

end Gempba.Telemetry
