import Gempba.Library.JsonWriting
import Gempba.Telemetry.JsonSerializer
import Mathlib.Data.Nat.Digits.Lemmas

/-!
# Broadcast lines

What the writer's pieces are as JSON texts: strings, numbers, floats that may be
cut, loops, and the frames and tables made of them.
-/

namespace Gempba.Telemetry

set_option autoImplicit false

open Json

variable {k : Container} {stack : List Container} {isKey : Bool} {m : NumberMode}

/-! Strings. -/

theorem isHexDigit_hexDigit : ∀ n < 16, IsHexDigit (hexDigit n) := by decide

theorem step_hex {left : ℕ} {c : UInt8} (hc : IsHexDigit c) :
    step (.inside (.hex isKey left) k stack) c = some (.inside (hexEnd isKey left) k stack) :=
  if_pos hc

theorem run_escapeByte (c : UInt8) :
    run (.inside (.string isKey) k stack) (escapeByte c) =
      some (.inside (.string isKey) k stack) := by
  rw [escapeByte]
  split
  · rfl
  rename_i hquote
  split
  · rfl
  rename_i hbackslash
  split
  · rfl
  split
  · rfl
  split
  · rfl
  split
  · rename_i hcontrol
    have hlt : c.toNat < 0x20 := UInt8.lt_iff_toNat_lt.mp hcontrol
    have hzeros : run (.inside (.string isKey) k stack) (bytes "\\u00") =
        some (.inside (.hex isKey 1) k stack) := rfl
    have hhigh := isHexDigit_hexDigit (c.toNat / 16) (by omega)
    have hlow := isHexDigit_hexDigit (c.toNat % 16) (by omega)
    rw [run_append, hzeros, Option.bind_some, run_cons (step_hex hhigh), hexEnd,
      run_cons (step_hex hlow)]
    rfl
  · rename_i hcontrol
    exact run_cons (step_plain hquote hbackslash (UInt8.not_lt.mp hcontrol))

theorem hexDigit_printable : ∀ n < 16, 0x20 ≤ hexDigit n := by decide

theorem printable_escapeByte (c : UInt8) : Printable (escapeByte c) := by
  rw [escapeByte]
  split
  · decide
  split
  · decide
  split
  · decide
  split
  · decide
  split
  · decide
  split
  · rename_i hcontrol
    have hlt : c.toNat < 0x20 := UInt8.lt_iff_toNat_lt.mp hcontrol
    have hzeros : Printable (bytes "\\u00") := by decide
    apply hzeros.append
    intro d hd
    obtain rfl | hd := List.mem_cons.mp hd
    · exact hexDigit_printable _ (by omega)
    · rw [List.mem_singleton.mp hd]
      exact hexDigit_printable _ (by omega)
  · rename_i hcontrol
    intro d hd
    rw [List.mem_singleton.mp hd]
    exact UInt8.not_lt.mp hcontrol

theorem run_flatMap_escapeByte (s : Bytes) :
    run (.inside (.string isKey) k stack) (s.flatMap escapeByte) =
      some (.inside (.string isKey) k stack) := by
  induction s with
  | nil => rfl
  | cons c s ih =>
    rw [List.flatMap_cons, run_append, run_escapeByte]
    exact ih

theorem printable_flatMap_escapeByte (s : Bytes) : Printable (s.flatMap escapeByte) := by
  intro d hd
  obtain ⟨c, _, hd⟩ := List.mem_flatMap.mp hd
  exact printable_escapeByte c d hd

theorem isValue_escapeQuoted (s : Bytes) : IsValue True (escapeQuoted s) :=
  .string (fun _ _ => run_flatMap_escapeByte s) (printable_flatMap_escapeByte s)

theorem isValue_null : IsValue True (bytes "null") := by
  refine ⟨fun k stack t ht => ?_, by decide, _, _, rfl, by decide, by decide⟩
  have hrun : run (.inside .value k stack) (bytes "null") = some (.inside (.word []) k stack) := rfl
  rw [accepts_append hrun, true_and]
  cases t with
  | nil => cases ht
  | cons c t =>
    rw [accepts_cons, accepts_cons]
    exact Iff.rfl

theorem isValue_emitQuotedOrNull (s : Bytes) : IsValue True (emitQuotedOrNull s) := by
  rw [emitQuotedOrNull]
  split
  · exact isValue_null
  · exact isValue_escapeQuoted s

/-! Numbers. -/

/-- What the last digit of a number is when it is written without a point. -/
def decimalMode (n : ℕ) : NumberMode := if n = 0 then .zero else .integer

theorem isDigit_ofNat : ∀ d < 10, IsDigit (UInt8.ofNat (0x30 + d)) := by decide

theorem ofNat_ne_zero : ∀ d < 10, d ≠ 0 → UInt8.ofNat (0x30 + d) ≠ 0x30 := by decide

theorem decimal_eq_cons {n : ℕ} (hn : n ≠ 0) :
    ∃ c s, decimal n = c :: s ∧ IsDigit c ∧ c ≠ 0x30 ∧ ∀ d ∈ s, IsDigit d := by
  have hne : Nat.digits 10 n ≠ [] := Nat.digits_ne_nil_iff_ne_zero.mpr hn
  have hlt : ∀ d ∈ Nat.digits 10 n, d < 10 := fun d hd => Nat.digits_lt_base (by decide) hd
  have hreverse : (Nat.digits 10 n).reverse =
      (Nat.digits 10 n).getLast hne :: (Nat.digits 10 n).dropLast.reverse := by
    conv_lhs => rw [← List.dropLast_append_getLast hne]
    rw [List.reverse_append]
    rfl
  have hlast := hlt _ (List.getLast_mem hne)
  have hzero := ofNat_ne_zero _ hlast (Nat.getLast_digit_ne_zero 10 hn)
  refine ⟨UInt8.ofNat (0x30 + (Nat.digits 10 n).getLast hne),
    (Nat.digits 10 n).dropLast.reverse.map fun d => UInt8.ofNat (0x30 + d), ?_,
    isDigit_ofNat _ hlast, hzero, ?_⟩
  · rw [decimal, if_neg hn, hreverse]
    rfl
  · intro c hc
    obtain ⟨d, hd, rfl⟩ := List.mem_map.mp hc
    exact isDigit_ofNat d (hlt d (List.dropLast_subset _ (List.mem_reverse.mp hd)))

theorem run_digits {s : Bytes} (hm : ∀ c, IsDigit c → m.next c = some m)
    (hs : ∀ c ∈ s, IsDigit c) :
    run (.inside (.number m) k stack) s = some (.inside (.number m) k stack) := by
  induction s with
  | nil => rfl
  | cons c s ih =>
    have hstep : step (.inside (.number m) k stack) c = some (.inside (.number m) k stack) := by
      rw [step, insideStep, hm c (hs c List.mem_cons_self)]
      rfl
    rw [run_cons hstep]
    exact ih fun d hd => hs d (List.mem_cons_of_mem c hd)

theorem integer_next (c : UInt8) (hc : IsDigit c) :
    NumberMode.integer.next c = some .integer := if_pos hc

theorem printable_of_digits {s : Bytes} (hs : ∀ c ∈ s, IsDigit c) : Printable s := by
  intro c hc
  have hspace : (0x20 : UInt8) ≤ 0x30 := by decide
  exact UInt8.le_trans hspace (hs c hc).1

theorem decimal_length_lt_iff {n j : ℕ} : j + 1 < (decimal n).length ↔ 10 ^ (j + 1) ≤ n := by
  rw [decimal]
  split
  · rename_i hn
    have hpos : 0 < 10 ^ (j + 1) := Nat.pow_pos (by decide)
    rw [hn, List.length_singleton]
    omega
  · rw [List.length_map, List.length_reverse, Nat.lt_digits_length_iff (by decide)]

theorem decimal_length_iff {n j : ℕ} :
    (decimal n).length = j + 2 ↔ 10 ^ (j + 1) ≤ n ∧ n < 10 ^ (j + 2) := by
  have hlower := decimal_length_lt_iff (n := n) (j := j)
  have hupper : j + 2 < (decimal n).length ↔ 10 ^ (j + 2) ≤ n := decimal_length_lt_iff
  generalize 10 ^ (j + 1) = lower at hlower ⊢
  generalize 10 ^ (j + 2) = upper at hupper ⊢
  omega

theorem decimal_zero : decimal 0 = [0x30] := rfl

/-- A number is read in the same way as a value and after a minus. -/
structure StartsNumber (st : Json.State) (k : Container) (stack : List Container) : Prop where
  zero : step st 0x30 = some (.inside (.number .zero) k stack)
  digit : ∀ c, IsDigit c → c ≠ 0x30 → step st c = some (.inside (.number .integer) k stack)

theorem startsNumber_value : StartsNumber (.inside .value k stack) k stack := by
  refine ⟨rfl, fun c hc hzero => ?_⟩
  have hbytes : ∀ c ∈ [0x20, 0x09, 0x0A, 0x0D, OPEN_BRACE, OPEN_BRACKET], ¬ IsDigit c :=
    List.all_iff_forall_prop.mp (by decide)
  have hspace : ¬ IsSpace c := fun h => hbytes c (List.mem_append_left _ h) hc
  have hbrace : c ≠ OPEN_BRACE := by
    rintro rfl
    exact hbytes _ (by decide) hc
  have hbracket : c ≠ OPEN_BRACKET := by
    rintro rfl
    exact hbytes _ (by decide) hc
  rw [step, insideStep, if_neg hspace, startStep, if_neg hbrace, if_neg hbracket,
    startMode_digit hc hzero]
  rfl

theorem startsNumber_minus : StartsNumber (.inside (.number .minus) k stack) k stack := by
  refine ⟨rfl, fun c hc hzero => ?_⟩
  rw [step, insideStep, NumberMode.next, if_neg hzero, if_pos hc]
  rfl

theorem run_integer {st : Json.State} {c : UInt8} {s : Bytes} (hst : StartsNumber st k stack)
    (hc : IsDigit c) (hzero : c ≠ 0x30) (hs : ∀ d ∈ s, IsDigit d) :
    run st (c :: s) = some (.inside (.number .integer) k stack) := by
  rw [run_cons (hst.digit c hc hzero)]
  exact run_digits integer_next hs

theorem run_decimal {st : Json.State} (hst : StartsNumber st k stack) (n : ℕ) :
    run st (decimal n) = some (.inside (.number (decimalMode n)) k stack) := by
  obtain rfl | hn := eq_or_ne n 0
  · rw [decimal_zero, run_cons hst.zero]
    rfl
  · obtain ⟨c, s, hdecimal, hc, hzero, hs⟩ := decimal_eq_cons hn
    rw [hdecimal, run_integer hst hc hzero hs, decimalMode, if_neg hn]

theorem decimal_digits (n : ℕ) : ∀ c ∈ decimal n, IsDigit c := by
  obtain rfl | hn := eq_or_ne n 0
  · exact List.all_iff_forall_prop.mp (by decide)
  · obtain ⟨c, s, hdecimal, hc, _, hs⟩ := decimal_eq_cons hn
    rw [hdecimal]
    exact List.forall_mem_cons.mpr ⟨hc, hs⟩

theorem decimal_ne_nil (n : ℕ) : decimal n ≠ [] := by
  obtain rfl | hn := eq_or_ne n 0
  · decide
  · obtain ⟨c, s, hdecimal, _⟩ := decimal_eq_cons hn
    rw [hdecimal]
    exact List.cons_ne_nil c s

theorem start_of_digit {c : UInt8} (hc : IsDigit c) : ¬ IsSpace c ∧ c ≠ CLOSE_BRACKET := by
  have hbytes : ∀ c ∈ [0x20, 0x09, 0x0A, 0x0D, CLOSE_BRACKET], ¬ IsDigit c :=
    List.all_iff_forall_prop.mp (by decide)
  refine ⟨fun h => hbytes c (List.mem_append_left _ h) hc, ?_⟩
  rintro rfl
  exact hbytes _ (by decide) hc

theorem start_of_digits {s t : Bytes} (hne : s ≠ []) (hs : ∀ c ∈ s, IsDigit c) :
    ∃ c u, s ++ t = c :: u ∧ ¬ IsSpace c ∧ c ≠ CLOSE_BRACKET := by
  obtain ⟨c, s, rfl⟩ := List.exists_cons_of_ne_nil hne
  exact ⟨c, s ++ t, rfl, start_of_digit (hs c List.mem_cons_self)⟩

theorem decimalMode_ends (n : ℕ) : (decimalMode n).ends = true := by
  rw [decimalMode]
  split <;> rfl

theorem isValue_decimal (n : ℕ) : IsValue True (decimal n) := by
  have hstart := start_of_digits (t := []) (decimal_ne_nil n) (decimal_digits n)
  rw [List.append_nil] at hstart
  have hvalue := IsValue.number (fun _ _ => run_decimal startsNumber_value n)
    (printable_of_digits (decimal_digits n)) hstart
  exact hvalue.congr (iff_of_true (decimalMode_ends n) trivial)

theorem isValue_emitU64 (v : UInt64) : IsValue True (emitU64 v) := isValue_decimal v.toNat

/-! Floats. -/

/-- The absolute values that the buffer cuts at the point. -/
def FloatCut (v : BitVec 32) : Prop :=
  if v.msb then 10 ^ 28 ≤ floatMagnitude v ∧ floatMagnitude v < 10 ^ 29
  else 10 ^ 29 ≤ floatMagnitude v ∧ floatMagnitude v < 10 ^ 30

instance (v : BitVec 32) : Decidable (FloatCut v) := by
  unfold FloatCut
  infer_instance

theorem roundHalfEven_le {x : ℚ} {n : ℤ} (h : x ≤ n) : roundHalfEven x ≤ n := by
  have hfloor : ⌊x⌋ ≤ n := by
    have hle := Int.floor_le x
    have hcast : (⌊x⌋ : ℚ) ≤ n := hle.trans h
    exact_mod_cast hcast
  obtain heq | hlt := eq_or_lt_of_le hfloor
  · have hx : x = n := by
      have hle := Int.floor_le x
      rw [heq] at hle
      exact le_antisymm h hle
    rw [hx, Score.roundHalfEven_intCast]
  · rw [roundHalfEven]
    split
    · exact hfloor
    · split
      · exact hlt
      · split
        · exact hfloor
        · exact hlt

/-- The digits before the point. -/
def integerPart (v : BitVec 32) : ℕ := (roundHalfEven (floatMagnitude v * 1000)).toNat / 1000

/-- A float of this size is an integer. -/
theorem floatMagnitude_eq {v : BitVec 32} (h : 150 ≤ floatExponent v) :
    ∃ n : ℕ, floatMagnitude v = n := by
  refine ⟨(2 ^ 23 + floatMantissa v) * 2 ^ (floatExponent v - 150), ?_⟩
  have hexponent : (floatExponent v : ℤ) - 150 = ((floatExponent v - 150 : ℕ) : ℤ) := by omega
  rw [floatMagnitude, if_neg (by omega), hexponent, zpow_natCast]
  push_cast
  rfl

theorem floatMagnitude_le {v : BitVec 32} (h : floatExponent v < 150) :
    floatMagnitude v ≤ 2 ^ 24 := by
  have hmantissa : floatMantissa v < 2 ^ 23 := Nat.mod_lt _ (by decide)
  have hcast : (floatMantissa v : ℚ) ≤ 2 ^ 23 := by exact_mod_cast hmantissa.le
  rw [floatMagnitude]
  split
  · have hpower : (2 : ℚ) ^ (-149 : ℤ) ≤ 1 := zpow_le_one_of_nonpos₀ (by norm_num) (by norm_num)
    calc (floatMantissa v : ℚ) * 2 ^ (-149 : ℤ) ≤ 2 ^ 23 * 1 := by
          apply mul_le_mul hcast hpower (by positivity) (by positivity)
      _ ≤ 2 ^ 24 := by norm_num
  · have hpower : (2 : ℚ) ^ ((floatExponent v : ℤ) - 150) ≤ 1 :=
      zpow_le_one_of_nonpos₀ (by norm_num) (by omega)
    calc (2 ^ 23 + floatMantissa v : ℚ) * 2 ^ ((floatExponent v : ℤ) - 150)
        ≤ (2 ^ 23 + 2 ^ 23) * 1 := by
          apply mul_le_mul (by linarith) hpower (zpow_nonneg (by norm_num) _) (by norm_num)
      _ = 2 ^ 24 := by norm_num

/-- Rounding moves no float over a bound as large as that. -/
theorem le_integerPart_iff {v : BitVec 32} {n : ℕ} (hn : 2 ^ 24 < n) :
    n ≤ integerPart v ↔ (n : ℚ) ≤ floatMagnitude v := by
  obtain h | h := Nat.lt_or_ge (floatExponent v) 150
  · have hle := floatMagnitude_le h
    have hpart : integerPart v ≤ 2 ^ 24 := by
      have hround : roundHalfEven (floatMagnitude v * 1000) ≤ ((2 ^ 24 * 1000 : ℕ) : ℤ) := by
        apply roundHalfEven_le
        push_cast
        linarith
      have hnat : (roundHalfEven (floatMagnitude v * 1000)).toNat ≤ 2 ^ 24 * 1000 := by omega
      exact Nat.div_le_of_le_mul (by omega)
    have hcast : (2 ^ 24 : ℚ) < n := by exact_mod_cast hn
    constructor
    · intro hle
      omega
    · intro hmagnitude
      linarith
  · obtain ⟨m, hm⟩ := floatMagnitude_eq h
    have hpart : integerPart v = m := by
      have hscaled : floatMagnitude v * 1000 = ((m * 1000 : ℕ) : ℤ) := by
        rw [hm]
        push_cast
        rfl
      rw [integerPart, hscaled, Score.roundHalfEven_intCast, Int.toNat_natCast,
        Nat.mul_div_cancel m (by decide)]
    rw [hpart, hm]
    exact Nat.cast_le.symm

theorem integerPart_lt_iff {v : BitVec 32} {n : ℕ} (hn : 2 ^ 24 < n) :
    integerPart v < n ↔ floatMagnitude v < n := by
  rw [← not_le, ← not_le, le_integerPart_iff hn]

/-- The sign and the digits before the point. -/
def signedPart (v : BitVec 32) : Bytes := signText v ++ decimal (integerPart v)

theorem floatCut_iff (v : BitVec 32) : FloatCut v ↔ (signedPart v).length = 30 := by
  have hlower : 2 ^ 24 < 10 ^ 28 := by norm_num
  have hmiddle : 2 ^ 24 < 10 ^ 29 := by norm_num
  have hupper : 2 ^ 24 < 10 ^ 30 := by norm_num
  rw [FloatCut, signedPart, signText]
  split
  · have hlength := decimal_length_iff (n := integerPart v) (j := 27)
    rw [le_integerPart_iff hlower, integerPart_lt_iff hmiddle] at hlength
    simp only [Nat.cast_pow, Nat.cast_ofNat] at hlength
    rw [← hlength, List.length_append, List.length_singleton]
    omega
  · have hlength := decimal_length_iff (n := integerPart v) (j := 28)
    rw [le_integerPart_iff hmiddle, integerPart_lt_iff hupper] at hlength
    simp only [Nat.cast_pow, Nat.cast_ofNat] at hlength
    rw [← hlength, List.nil_append]

/-- The digits after the point. -/
def fractionPart (v : BitVec 32) : Bytes :=
  let thousandths := (roundHalfEven (floatMagnitude v * 1000)).toNat
  [UInt8.ofNat (0x30 + thousandths / 100 % 10), UInt8.ofNat (0x30 + thousandths / 10 % 10),
    UInt8.ofNat (0x30 + thousandths % 10)]

theorem printFloat_eq {v : BitVec 32} (h : FloatFinite v) :
    printFloat v = signedPart v ++ POINT :: fractionPart v := by
  rw [printFloat, if_pos h]
  rfl

theorem fractionPart_digits (v : BitVec 32) : ∀ c ∈ fractionPart v, IsDigit c := by
  intro c hc
  obtain rfl | hc := List.mem_cons.mp hc
  · exact isDigit_ofNat _ (Nat.mod_lt _ (by decide))
  obtain rfl | hc := List.mem_cons.mp hc
  · exact isDigit_ofNat _ (Nat.mod_lt _ (by decide))
  rw [List.mem_singleton.mp hc]
  exact isDigit_ofNat _ (Nat.mod_lt _ (by decide))

/-- The mode after the sign of a float. -/
def signMode (v : BitVec 32) : Mode := if v.msb then .number .minus else .value

theorem run_signText (v : BitVec 32) :
    run (.inside .value k stack) (signText v) = some (.inside (signMode v) k stack) := by
  rw [signText, signMode]
  split <;> rfl

theorem startsNumber_signMode (v : BitVec 32) :
    StartsNumber (.inside (signMode v) k stack) k stack := by
  rw [signMode]
  split
  · exact startsNumber_minus
  · exact startsNumber_value

theorem run_signedPart (v : BitVec 32) : run (.inside .value k stack) (signedPart v) =
    some (.inside (.number (decimalMode (integerPart v))) k stack) := by
  rw [signedPart, run_append, run_signText]
  exact run_decimal (startsNumber_signMode v) _

theorem signedPart_start (v : BitVec 32) (t : Bytes) :
    ∃ c s, signedPart v ++ t = c :: s ∧ ¬ IsSpace c ∧ c ≠ CLOSE_BRACKET := by
  rw [signedPart, signText]
  split
  · exact ⟨MINUS, _, rfl, by decide, by decide⟩
  · rw [List.nil_append]
    exact start_of_digits (decimal_ne_nil _) (decimal_digits _)

theorem printable_signText (v : BitVec 32) : Printable (signText v) := by
  rw [signText]
  split <;> decide

theorem printable_emitFloat {v : BitVec 32} (h : FloatFinite v) : Printable (emitFloat v) := by
  have hpoint : Printable [POINT] := by decide
  have hprinted : Printable (printFloat v) := by
    rw [printFloat_eq h, signedPart]
    refine Printable.append (Printable.append (printable_signText v) ?_) (hpoint.append ?_)
    · exact printable_of_digits (decimal_digits _)
    · exact printable_of_digits (fractionPart_digits v)
  intro c hc
  exact hprinted c (List.mem_of_mem_take hc)

theorem decimalMode_point (n : ℕ) : (decimalMode n).next POINT = some .point := by
  rw [decimalMode]
  split <;> rfl

theorem run_point (v : BitVec 32) : run (.inside .value k stack) (signedPart v ++ [POINT]) =
    some (.inside (.number .point) k stack) := by
  have hstep : step (.inside (.number (decimalMode (integerPart v))) k stack) POINT =
      some (.inside (.number .point) k stack) := by
    rw [step, insideStep, decimalMode_point]
    rfl
  rw [run_append, run_signedPart, Option.bind_some, run_cons hstep]
  rfl

theorem fraction_next (c : UInt8) (hc : IsDigit c) :
    NumberMode.fraction.next c = some .fraction := if_pos hc

/-- Digits after the point. -/
theorem run_fraction (v : BitVec 32) {s : Bytes} (hne : s ≠ []) (hs : ∀ c ∈ s, IsDigit c) :
    run (.inside .value k stack) (signedPart v ++ POINT :: s) =
      some (.inside (.number .fraction) k stack) := by
  obtain ⟨c, s, rfl⟩ := List.exists_cons_of_ne_nil hne
  have hstep : step (.inside (.number .point) k stack) c =
      some (.inside (.number .fraction) k stack) := by
    rw [step, insideStep, NumberMode.next, if_pos (hs c List.mem_cons_self)]
    rfl
  have htext : signedPart v ++ POINT :: c :: s = signedPart v ++ [POINT] ++ c :: s := by
    rw [List.append_assoc]
    rfl
  rw [htext, run_append, run_point, Option.bind_some, run_cons hstep]
  exact run_digits fraction_next fun d hd => hs d (List.mem_cons_of_mem c hd)

theorem run_take (v : BitVec 32) (h : 30 < (signedPart v).length) :
    run (.inside .value k stack) ((signedPart v).take 31) =
      some (.inside (.number .integer) k stack) := by
  have hsign : (signText v).length ≤ 1 := by
    rw [signText]
    split <;> decide
  have hpart : integerPart v ≠ 0 := by
    intro hzero
    rw [signedPart, hzero, decimal_zero, List.length_append, List.length_singleton] at h
    omega
  obtain ⟨c, s, hdecimal, hc, hzero, hs⟩ := decimal_eq_cons hpart
  have htake : (signedPart v).take 31 =
      signText v ++ c :: s.take (30 - (signText v).length) := by
    have hsucc : 31 - (signText v).length = 30 - (signText v).length + 1 := by omega
    rw [signedPart, List.take_append, List.take_of_length_le (by omega), hdecimal, hsucc,
      List.take_succ_cons]
  rw [htake, run_append, run_signText]
  exact run_integer (startsNumber_signMode v) hc hzero fun d hd => hs d (List.mem_of_mem_take hd)

theorem emitFloat_start {v : BitVec 32} (h : FloatFinite v) :
    ∃ c s, emitFloat v = c :: s ∧ ¬ IsSpace c ∧ c ≠ CLOSE_BRACKET := by
  obtain ⟨c, s, hs, hc⟩ := signedPart_start v (POINT :: fractionPart v)
  refine ⟨c, s.take 30, ?_, hc⟩
  rw [emitFloat, printFloat_eq h, hs, List.take_succ_cons]

/-- A finite float is written as a number unless the buffer ends at its point. -/
theorem isValue_emitFloat {v : BitVec 32} (h : FloatFinite v) :
    IsValue (¬ FloatCut v) (emitFloat v) := by
  have hprintable := printable_emitFloat h
  have hstart := emitFloat_start h
  rw [floatCut_iff]
  obtain hlength | hlength | hlength := Nat.lt_trichotomy (signedPart v).length 30
  · have htext : emitFloat v = signedPart v ++
        POINT :: (fractionPart v).take (30 - (signedPart v).length) := by
      have hsucc : 31 - (signedPart v).length = 30 - (signedPart v).length + 1 := by omega
      rw [emitFloat, printFloat_eq h, List.take_append, List.take_of_length_le (by omega), hsucc,
        List.take_succ_cons]
    have hne : (fractionPart v).take (30 - (signedPart v).length) ≠ [] := by
      apply List.ne_nil_of_length_pos
      rw [List.length_take]
      exact Nat.lt_min.mpr ⟨by omega, Nat.succ_pos 2⟩
    have hdigits : ∀ c ∈ (fractionPart v).take (30 - (signedPart v).length), IsDigit c :=
      fun c hc => fractionPart_digits v c (List.mem_of_mem_take hc)
    have hrun : ∀ k stack, run (.inside .value k stack) (emitFloat v) =
        some (.inside (.number .fraction) k stack) := by
      intro k stack
      rw [htext]
      exact run_fraction v hne hdigits
    exact (IsValue.number hrun hprintable hstart).congr (iff_of_true rfl (by omega))
  · have htext : emitFloat v = signedPart v ++ [POINT] := by
      rw [emitFloat, printFloat_eq h, List.take_append, List.take_of_length_le (by omega), hlength]
      rfl
    have hrun : ∀ k stack, run (.inside .value k stack) (emitFloat v) =
        some (.inside (.number .point) k stack) := by
      intro k stack
      rw [htext]
      exact run_point v
    exact (IsValue.number hrun hprintable hstart).congr (iff_of_false (by decide) (by omega))
  · have htext : emitFloat v = (signedPart v).take 31 := by
      have hsucc : 31 - (signedPart v).length = 0 := by omega
      rw [emitFloat, printFloat_eq h, List.take_append, hsucc, List.take_zero, List.append_nil]
    have hrun : ∀ k stack, run (.inside .value k stack) (emitFloat v) =
        some (.inside (.number .integer) k stack) := by
      intro k stack
      rw [htext]
      exact run_take v hlength
    exact (IsValue.number hrun hprintable hstart).congr (iff_of_true rfl (by omega))

end Gempba.Telemetry
