import Mathlib.Data.Int.Log
import Mathlib.Data.Rat.Floor
import Mathlib.Algebra.Order.Ring.WithTop
import Mathlib.Order.Compare
import Mathlib.Tactic.Linarith
import Mathlib.Tactic.FieldSimp
import Mathlib.Tactic.Positivity

/-!
# Scores: one numeric value of any supported kind

A score is a kind and sixteen payload bytes. The value of a payload is an
exact rational, an infinity, or nothing for a NaN. Scores of one kind are
compared as they are, scores of different kinds after a conversion to long
double; the conversion is exact, so both compare the exact values.
-/

namespace Gempba

set_option autoImplicit false

inductive ScoreType where
  | I32 | U_I32 | I64 | U_I64 | F32 | F64 | F128
  deriving DecidableEq, Repr

inductive Goal where
  | MAXIMISE | MINIMISE
  deriving DecidableEq, Repr

/-- Width of `long`: 64 bits on LP64 targets, 32 bits on LLP64 targets. -/
inductive DataModel where
  | LP64 | LLP64
  deriving DecidableEq, Repr

structure Score where
  kind : ScoreType
  payload : BitVec 128
  deriving DecidableEq, Repr

/-- A numeric value with both infinities. -/
abbrev Numeric := WithBot (WithTop ℚ)

namespace Numeric

def finite (q : ℚ) : Numeric := ((q : WithTop ℚ) : WithBot (WithTop ℚ))

def infinity (negative : Bool) : Numeric := if negative then ⊥ else ((⊤ : WithTop ℚ) : Numeric)

/-- A sign, an integer significand and a power of two. -/
def scaled (negative : Bool) (significand : ℕ) (exponent : ℤ) : Numeric :=
  finite ((if negative then -1 else 1) * significand * (2 : ℚ) ^ exponent)

/-- The IEEE interchange formats; `none` is a NaN. -/
def ofInterchange (exponentBits mantissaBits bits : ℕ) : Option Numeric :=
  let mantissa : ℕ := bits % 2 ^ mantissaBits
  let exponent : ℕ := bits / 2 ^ mantissaBits % 2 ^ exponentBits
  let negative := bits / 2 ^ (mantissaBits + exponentBits) % 2 == 1
  let bias : ℤ := 2 ^ (exponentBits - 1) - 1
  if exponent = 2 ^ exponentBits - 1 then
    if mantissa = 0 then some (infinity negative) else none
  else if exponent = 0 then
    some (scaled negative mantissa (1 - bias - mantissaBits))
  else
    some (scaled negative (2 ^ mantissaBits + mantissa) (exponent - bias - mantissaBits))

/-- The 80-bit extended format, whose leading significand bit is stored. A normal exponent
without that bit is an invalid operand and reads as a NaN. -/
def ofExtended (bits : ℕ) : Option Numeric :=
  let significand : ℕ := bits % 2 ^ 64
  let exponent : ℕ := bits / 2 ^ 64 % 2 ^ 15
  let negative := bits / 2 ^ 79 % 2 == 1
  if exponent = 2 ^ 15 - 1 then
    if significand = 2 ^ 63 then some (infinity negative) else none
  else if exponent = 0 then
    some (scaled negative significand (1 - 16383 - 63))
  else if significand < 2 ^ 63 then none
  else some (scaled negative significand (exponent - 16383 - 63))

end Numeric

def roundHalfEven (x : ℚ) : ℤ :=
  let below := ⌊x⌋
  if x - below < 1 / 2 then below
  else if 1 / 2 < x - below then below + 1
  else if below % 2 = 0 then below
  else below + 1

/-- Rounding to a binary significand of `precision` bits, exponents unbounded. -/
def roundSignificand (precision : ℕ) (x : ℚ) : ℚ :=
  let unit : ℚ := (2 : ℚ) ^ (Int.log 2 |x| - (precision - 1 : ℤ))
  roundHalfEven (x / unit) * unit

namespace Score

def makeRaw (kind : ScoreType) (bits : ℕ) : Score := ⟨kind, BitVec.ofNat 128 bits⟩

/-- `make` of a 32-bit signed integer. -/
def makeInt (n : BitVec 32) : Score := makeRaw .I32 n.toNat

def readInt (s : Score) : Option ℤ :=
  match s.kind with
  | .I32 => some (s.payload.setWidth 32).toInt
  | .U_I32 => some (s.payload.setWidth 32).toNat
  | .I64 => some (s.payload.setWidth 64).toInt
  | .U_I64 => some (s.payload.setWidth 64).toNat
  | .F32 | .F64 | .F128 => none

/-- The value read in the score's own type; `none` is a NaN. -/
def value (s : Score) : Option Numeric :=
  match s.kind with
  | .I32 | .U_I32 | .I64 | .U_I64 => s.readInt.map fun n => Numeric.finite n
  | .F32 => Numeric.ofInterchange 8 23 (s.payload.setWidth 32).toNat
  | .F64 => Numeric.ofInterchange 11 52 (s.payload.setWidth 64).toNat
  | .F128 => Numeric.ofExtended (s.payload.setWidth 80).toNat

/-- Integers are rounded to the 64-bit significand of long double; widening a float is exact. -/
def toLongDouble (s : Score) : Option Numeric :=
  match s.readInt with
  | some n => some (Numeric.finite (roundSignificand 64 n))
  | none => s.value

def compareValues : Option Numeric → Option Numeric → Option Ordering
  | some a, some b => some (cmp a b)
  | _, _ => none

/-- `operator<=>`; `none` is unordered. -/
def threeWay (p q : Score) : Option Ordering :=
  if p.kind = q.kind then compareValues p.value q.value
  else compareValues p.toLongDouble q.toLongDouble

/-- `operator==`. -/
def equals (p q : Score) : Bool :=
  if p.kind ≠ q.kind then false else compareValues p.value q.value == some .eq

theorem roundHalfEven_intCast (n : ℤ) : roundHalfEven n = n := by
  simp [roundHalfEven]

theorem roundSignificand_intCast {precision : ℕ} {n : ℤ} (hn : |n| < 2 ^ precision) :
    roundSignificand precision n = n := by
  by_cases h0 : n = 0
  · simp [h0, roundSignificand, roundHalfEven]
  · have hlog : Int.log 2 |(n : ℚ)| < precision := by
      have hpos : (0 : ℚ) < |(n : ℚ)| := by
        have : (n : ℚ) ≠ 0 := by exact_mod_cast h0
        positivity
      rw [← Int.lt_zpow_iff_log_lt (by norm_num) hpos]
      have hcast : |(n : ℚ)| < 2 ^ precision := by exact_mod_cast hn
      simpa using hcast
    -- The unit divides one, so the scaled value is already an integer.
    obtain ⟨k, hk⟩ : ∃ k : ℕ, Int.log 2 |(n : ℚ)| - (precision - 1 : ℤ) = -(k : ℤ) := by
      refine ⟨((precision - 1 : ℤ) - Int.log 2 |(n : ℚ)|).toNat, ?_⟩
      rw [Int.toNat_of_nonneg (by omega)]
      ring
    have hscaled : (n : ℚ) / (2 : ℚ) ^ (-(k : ℤ)) = ((n * 2 ^ k : ℤ) : ℚ) := by
      rw [zpow_neg, zpow_natCast, div_inv_eq_mul]
      push_cast
      ring
    have hback : ((n * 2 ^ k : ℤ) : ℚ) * (2 : ℚ) ^ (-(k : ℤ)) = n := by
      rw [← hscaled]
      field_simp
    rw [roundSignificand]
    simp only [hk, hscaled, roundHalfEven_intCast]
    exact hback

theorem readInt_bound {s : Score} {n : ℤ} (h : s.readInt = some n) : |n| < 2 ^ 64 := by
  unfold readInt at h
  have signed (w : ℕ) (hw : 0 < w) (hw' : w ≤ 64) (v : BitVec w) : |v.toInt| < 2 ^ 64 := by
    have hle : (2 : ℤ) ^ (w - 1) ≤ 2 ^ 63 := pow_le_pow_right₀ (by norm_num) (by omega)
    have hlo := BitVec.le_toInt v
    have hhi := BitVec.toInt_lt (x := v)
    rw [abs_lt]
    constructor <;> linarith
  have unsigned (w : ℕ) (hw' : w ≤ 64) (v : BitVec w) : |(v.toNat : ℤ)| < 2 ^ 64 := by
    have hle : (2 : ℤ) ^ w ≤ 2 ^ 64 := pow_le_pow_right₀ (by norm_num) hw'
    have hlt : (v.toNat : ℤ) < 2 ^ w := by exact_mod_cast v.isLt
    rw [abs_of_nonneg (by positivity)]
    linarith
  cases hkind : s.kind <;> simp only [hkind, Option.some.injEq, reduceCtorEq] at h
  · exact h ▸ signed 32 (by norm_num) (by norm_num) _
  · exact h ▸ unsigned 32 (by norm_num) _
  · exact h ▸ signed 64 (by norm_num) (by norm_num) _
  · exact h ▸ unsigned 64 (by norm_num) _

theorem toLongDouble_eq (s : Score) : s.toLongDouble = s.value := by
  unfold toLongDouble
  cases hn : s.readInt with
  | none => rfl
  | some n =>
    have hround : roundSignificand 64 n = n := roundSignificand_intCast (readInt_bound hn)
    simp only [hround]
    unfold value
    cases hkind : s.kind <;> simp [hn] <;> simp [readInt, hkind] at hn

/-- Scores of any kinds are compared by their exact values. -/
theorem threeWay_eq (p q : Score) : p.threeWay q = compareValues p.value q.value := by
  simp [threeWay, toLongDouble_eq]

/-- `p > q`. -/
def gt (p q : Score) : Bool := p.threeWay q == some .gt

/-- `p < q`. -/
def lt (p q : Score) : Bool := p.threeWay q == some .lt

theorem gt_iff (p q : Score) :
    p.gt q = true ↔ ∃ a b, p.value = some a ∧ q.value = some b ∧ b < a := by
  rw [gt, threeWay_eq, beq_iff_eq]
  cases p.value with
  | none => simp [compareValues]
  | some a =>
    cases q.value with
    | none => simp [compareValues]
    | some b =>
      rw [compareValues, Option.some_inj, cmp_eq_gt_iff]
      simp

theorem lt_iff (p q : Score) :
    p.lt q = true ↔ ∃ a b, p.value = some a ∧ q.value = some b ∧ a < b := by
  rw [lt, threeWay_eq, beq_iff_eq]
  cases p.value with
  | none => simp [compareValues]
  | some a =>
    cases q.value with
    | none => simp [compareValues]
    | some b =>
      rw [compareValues, Option.some_inj, cmp_eq_lt_iff]
      simp

theorem equals_self {s : Score} {a : Numeric} (h : s.value = some a) : s.equals s = true := by
  rw [equals, if_neg (by simp), h, compareValues, cmp_self_eq_eq]
  rfl

theorem value_eq_of_equals {p q : Score} (h : p.equals q = true) : p.value = q.value := by
  unfold equals at h
  split at h
  · cases h
  · rw [beq_iff_eq] at h
    cases hp : p.value with
    | none => simp [hp, compareValues] at h
    | some a =>
      cases hq : q.value with
      | none => simp [hp, hq, compareValues] at h
      | some b =>
        rw [hp, hq, compareValues, Option.some_inj, cmp_eq_eq_iff] at h
        rw [h]

end Score

/-- `should_update` of the schedulers and `should_update_result` of the node manager. -/
def shouldUpdate (goal : Goal) (oldValue newValue : Score) : Bool :=
  (goal == .MAXIMISE && newValue.gt oldValue) || (goal == .MINIMISE && newValue.lt oldValue)

def Goal.Better (goal : Goal) (a b : Numeric) : Prop :=
  match goal with
  | .MAXIMISE => b < a
  | .MINIMISE => a < b

theorem Goal.Better.trans {goal : Goal} {a b c : Numeric} (hab : goal.Better a b)
    (hbc : goal.Better b c) : goal.Better a c := by
  cases goal with
  | MAXIMISE => exact lt_trans hbc hab
  | MINIMISE => exact lt_trans hab hbc

theorem Goal.Better.split {goal : Goal} {a b : Numeric} (hab : goal.Better a b) (c : Numeric) :
    goal.Better a c ∨ goal.Better c b := by
  cases goal with
  | MAXIMISE => exact (lt_or_ge c a).imp id (fun h => lt_of_lt_of_le hab h)
  | MINIMISE => exact (lt_or_ge a c).imp id (fun h => lt_of_le_of_lt h hab)

theorem Goal.Better.irrefl {goal : Goal} {a : Numeric} : ¬ goal.Better a a := by
  cases goal <;> exact lt_irrefl a

section Improvement

variable {goal : Goal} {p q r : Score}

theorem shouldUpdate_iff : shouldUpdate goal p q = true ↔
    ∃ a b, q.value = some a ∧ p.value = some b ∧ goal.Better a b := by
  cases goal <;> simp [shouldUpdate, Score.gt_iff, Score.lt_iff, Goal.Better]

/-- Scores of the same value are improved on by the same scores. -/
theorem shouldUpdate_congr (h : p.value = q.value) :
    shouldUpdate goal p r = shouldUpdate goal q r := by
  rw [Bool.eq_iff_iff, shouldUpdate_iff, shouldUpdate_iff, h]

@[simp] theorem shouldUpdate_self : shouldUpdate goal p p = false := by
  rw [Bool.eq_false_iff]
  intro h
  obtain ⟨a, b, ha, hb, hab⟩ := shouldUpdate_iff.mp h
  cases ha.symm.trans hb
  exact hab.irrefl

theorem shouldUpdate_trans (hpq : shouldUpdate goal p q = true)
    (hqr : shouldUpdate goal q r = true) : shouldUpdate goal p r = true := by
  obtain ⟨b, c, hb, hc, hbc⟩ := shouldUpdate_iff.mp hpq
  obtain ⟨a, b', ha, hb', hab⟩ := shouldUpdate_iff.mp hqr
  cases hb.symm.trans hb'
  exact shouldUpdate_iff.mpr ⟨a, c, ha, hc, hab.trans hbc⟩

/-- A number lies below the better or above the worse of two scores; a NaN need not. -/
theorem shouldUpdate_split (hpr : shouldUpdate goal p r = true) (hq : q.value ≠ none) :
    shouldUpdate goal q r = true ∨ shouldUpdate goal p q = true := by
  obtain ⟨a, c, ha, hc, hac⟩ := shouldUpdate_iff.mp hpr
  obtain ⟨b, hb⟩ := Option.ne_none_iff_exists'.mp hq
  obtain h | h := hac.split b
  · exact Or.inl (shouldUpdate_iff.mpr ⟨a, b, ha, hb, h⟩)
  · exact Or.inr (shouldUpdate_iff.mpr ⟨b, c, hb, hc, h⟩)

theorem value_ne_none_of_shouldUpdate (h : shouldUpdate goal p q = true) : q.value ≠ none := by
  obtain ⟨a, _, ha, _⟩ := shouldUpdate_iff.mp h
  simp [ha]

/-- `best` is `p` or improves on it. -/
def Attains (goal : Goal) (best p : Score) : Prop := best = p ∨ shouldUpdate goal p best = true

theorem Attains.refl (p : Score) : Attains goal p p := Or.inl rfl

theorem Attains.of_update (h : shouldUpdate goal p q = true) : Attains goal q p := Or.inr h

theorem Attains.trans (hpq : Attains goal p q) (hqr : Attains goal q r) : Attains goal p r := by
  obtain rfl | hpq := hpq
  · exact hqr
  · obtain rfl | hqr := hqr
    · exact Or.inr hpq
    · exact Or.inr (shouldUpdate_trans hqr hpq)

theorem Attains.update_right (hpq : Attains goal p q) (hqr : shouldUpdate goal r q = true) :
    shouldUpdate goal r p = true := by
  obtain rfl | hpq := hpq
  · exact hqr
  · exact shouldUpdate_trans hqr hpq

theorem Attains.not_update (h : Attains goal p q) : shouldUpdate goal p q = false := by
  obtain rfl | h := h
  · exact shouldUpdate_self
  · rw [Bool.eq_false_iff]
    intro h'
    have hself := shouldUpdate_trans h h'
    simp at hself

end Improvement

/-- `none` is the throw on a kind without a default. -/
def getDefaultScore (model : DataModel) (goal : Goal) (kind : ScoreType) : Option Score :=
  match kind, goal with
  | .I32, .MAXIMISE => some (.makeRaw .I32 0x80000000)
  | .I32, .MINIMISE => some (.makeRaw .I32 0x7fffffff)
  -- `make(LONG_MIN)` takes its kind from the width of `long`
  | .I64, .MAXIMISE =>
    match model with
    | .LP64 => some (.makeRaw .I64 0x8000000000000000)
    | .LLP64 => some (.makeRaw .I32 0x80000000)
  | .I64, .MINIMISE =>
    match model with
    | .LP64 => some (.makeRaw .I64 0x7fffffffffffffff)
    | .LLP64 => some (.makeRaw .I32 0x7fffffff)
  | .F32, .MAXIMISE => some (.makeRaw .F32 0x00800000)
  | .F32, .MINIMISE => some (.makeRaw .F32 0x7f7fffff)
  | .F64, .MAXIMISE => some (.makeRaw .F64 0x0010000000000000)
  | .F64, .MINIMISE => some (.makeRaw .F64 0x7fefffffffffffff)
  | .F128, .MAXIMISE => some (.makeRaw .F128 0x00018000000000000000)
  | .F128, .MINIMISE => some (.makeRaw .F128 0x7ffeffffffffffffffff)
  | .U_I32, _ | .U_I64, _ => none

theorem value_getDefaultScore {model : DataModel} {goal : Goal} {kind : ScoreType} {s : Score}
    (h : getDefaultScore model goal kind = some s) : s.value ≠ none := by
  rw [← Option.isSome_iff_ne_none]
  cases kind <;> cases goal <;> first | cases h | (cases model <;> cases h)
  all_goals decide

end Gempba
