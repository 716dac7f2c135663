import Gempba.Utils.Score

/-!
# The worst finite value of a kind, and the initial scores

Under MAXIMISE the worst finite value of a kind is its lowest one, under
MINIMISE its largest. The initial score of a goal and kind is this value,
except for the floating kinds under MAXIMISE, where it is the smallest
positive normal number, and for I64 where `long` has 32 bits.
-/

namespace Gempba

set_option autoImplicit false

/-- The value of `p` is strictly better than that of `q`, as exact numbers. -/
def Beats (goal : Goal) (p q : Score) : Prop :=
  ∃ a b, p.value = some a ∧ q.value = some b ∧ goal.Better a b

theorem shouldUpdate_iff_beats {goal : Goal} {p q : Score} :
    shouldUpdate goal q p = true ↔ Beats goal p q :=
  shouldUpdate_iff

def worstFinite : Goal → ScoreType → Score
  | .MAXIMISE, .I32 => .makeRaw .I32 0x80000000
  | .MAXIMISE, .U_I32 => .makeRaw .U_I32 0
  | .MAXIMISE, .I64 => .makeRaw .I64 0x8000000000000000
  | .MAXIMISE, .U_I64 => .makeRaw .U_I64 0
  | .MAXIMISE, .F32 => .makeRaw .F32 0xff7fffff
  | .MAXIMISE, .F64 => .makeRaw .F64 0xffefffffffffffff
  | .MAXIMISE, .F128 => .makeRaw .F128 0xfffeffffffffffffffff
  | .MINIMISE, .I32 => .makeRaw .I32 0x7fffffff
  | .MINIMISE, .U_I32 => .makeRaw .U_I32 0xffffffff
  | .MINIMISE, .I64 => .makeRaw .I64 0x7fffffffffffffff
  | .MINIMISE, .U_I64 => .makeRaw .U_I64 0xffffffffffffffff
  | .MINIMISE, .F32 => .makeRaw .F32 0x7f7fffff
  | .MINIMISE, .F64 => .makeRaw .F64 0x7fefffffffffffff
  | .MINIMISE, .F128 => .makeRaw .F128 0x7ffeffffffffffffffff

namespace Numeric

theorem finite_lt {p q : ℚ} : finite p < finite q ↔ p < q := by
  rw [finite, finite, WithBot.coe_lt_coe, WithTop.coe_lt_coe]

theorem finite_le {p q : ℚ} : finite p ≤ finite q ↔ p ≤ q := by
  rw [finite, finite, WithBot.coe_le_coe, WithTop.coe_le_coe]

/-- A sign, a significand and an exponent, each within its bounds. -/
theorem scaled_bounds {negative : Bool} {m m' : ℕ} {e e' : ℤ} (hm : m ≤ m') (he : e ≤ e') :
    scaled true m' e' ≤ scaled negative m e ∧ scaled negative m e ≤ scaled false m' e' := by
  have hpow : (2 : ℚ) ^ e ≤ (2 : ℚ) ^ e' := zpow_le_zpow_right₀ one_le_two he
  have hpos : (0 : ℚ) < (2 : ℚ) ^ e := zpow_pos two_pos e
  have hcast : (m : ℚ) ≤ m' := Nat.cast_le.mpr hm
  have hnonneg : (0 : ℚ) ≤ (m : ℚ) * 2 ^ e := mul_nonneg (Nat.cast_nonneg m) hpos.le
  have hle : (m : ℚ) * 2 ^ e ≤ m' * 2 ^ e' :=
    mul_le_mul hcast hpow hpos.le (Nat.cast_nonneg m')
  rw [scaled, scaled, scaled, finite_le, finite_le]
  cases negative with
  | true =>
    rw [if_pos rfl, if_neg Bool.false_ne_true]
    constructor <;> linarith
  | false =>
    rw [if_pos rfl, if_neg Bool.false_ne_true]
    constructor <;> linarith

theorem infinity_ne_finite (negative : Bool) (q : ℚ) : infinity negative ≠ finite q := by
  cases negative with
  | true => exact WithBot.bot_ne_coe
  | false =>
    intro h
    exact WithTop.top_ne_coe (WithBot.coe_injective h)

theorem ofInterchange_eq_finite {exponentBits mantissaBits bits : ℕ} {q : ℚ}
    (hbits : 2 ≤ exponentBits)
    (h : ofInterchange exponentBits mantissaBits bits = some (finite q)) :
    ∃ negative m e, finite q = scaled negative m e ∧
      m ≤ 2 ^ mantissaBits + (2 ^ mantissaBits - 1) ∧
      e ≤ ((2 ^ exponentBits - 2 : ℕ) : ℤ) - (2 ^ (exponentBits - 1) - 1) - mantissaBits := by
  have hfour : 4 ≤ 2 ^ exponentBits := by
    calc 4 = 2 ^ 2 := rfl
      _ ≤ 2 ^ exponentBits := Nat.pow_le_pow_right two_pos hbits
  have hmantissa : bits % 2 ^ mantissaBits < 2 ^ mantissaBits :=
    Nat.mod_lt _ (Nat.two_pow_pos _)
  have hexponent : bits / 2 ^ mantissaBits % 2 ^ exponentBits < 2 ^ exponentBits :=
    Nat.mod_lt _ (Nat.two_pow_pos _)
  simp only [ofInterchange] at h
  split at h
  · split at h
    · exact absurd (Option.some.inj h) (infinity_ne_finite _ q)
    · cases h
  · rename_i hspecial
    split at h
    · refine ⟨_, _, _, (Option.some.inj h).symm, by omega, ?_⟩
      have hone : (1 : ℤ) ≤ ((2 ^ exponentBits - 2 : ℕ) : ℤ) := by omega
      linarith
    · refine ⟨_, _, _, (Option.some.inj h).symm, by omega, ?_⟩
      have hle : ((bits / 2 ^ mantissaBits % 2 ^ exponentBits : ℕ) : ℤ) ≤
          ((2 ^ exponentBits - 2 : ℕ) : ℤ) := Int.ofNat_le.mpr (by omega)
      linarith

theorem ofExtended_eq_finite {bits : ℕ} {q : ℚ} (h : ofExtended bits = some (finite q)) :
    ∃ negative m e, finite q = scaled negative m e ∧ m ≤ 2 ^ 64 - 1 ∧ e ≤ 32766 - 16383 - 63 := by
  have hsignificand : bits % 2 ^ 64 < 2 ^ 64 := Nat.mod_lt _ (Nat.two_pow_pos _)
  have hexponent : bits / 2 ^ 64 % 2 ^ 15 < 2 ^ 15 := Nat.mod_lt _ (Nat.two_pow_pos _)
  simp only [ofExtended] at h
  split at h
  · split at h
    · exact absurd (Option.some.inj h) (infinity_ne_finite _ q)
    · cases h
  · split at h
    · exact ⟨_, _, _, (Option.some.inj h).symm, by omega, by omega⟩
    · split at h
      · cases h
      · exact ⟨_, _, _, (Option.some.inj h).symm, by omega, by omega⟩

end Numeric

theorem value_of_readInt {s : Score} {n : ℤ} {q : ℚ} (hread : s.readInt = some n)
    (hs : s.value = some (Numeric.finite q)) : Numeric.finite q = Numeric.finite n := by
  have hvalue : s.value = some (Numeric.finite n) := by
    rw [Score.value]
    cases hkind : s.kind with
    | I32 | U_I32 | I64 | U_I64 =>
      rw [hread]
      rfl
    | F32 | F64 | F128 =>
      rw [Score.readInt, hkind] at hread
      cases hread
  exact Option.some.inj (hs.symm.trans hvalue)

theorem value_bounds {s : Score} {q : ℚ} (hs : s.value = some (Numeric.finite q)) :
    ∃ lowest highest, (worstFinite .MAXIMISE s.kind).value = some lowest ∧
      (worstFinite .MINIMISE s.kind).value = some highest ∧
      lowest ≤ Numeric.finite q ∧ Numeric.finite q ≤ highest := by
  have integer (n lo hi : ℤ) (hn : Numeric.finite q = Numeric.finite n) (hlo : lo ≤ n)
      (hhi : n ≤ hi) :
      Numeric.finite lo ≤ Numeric.finite q ∧ Numeric.finite q ≤ Numeric.finite hi := by
    rw [hn, Numeric.finite_le, Numeric.finite_le]
    exact ⟨Int.cast_le.mpr hlo, Int.cast_le.mpr hhi⟩
  cases hkind : s.kind with
  | I32 =>
    have hn := value_of_readInt (by rw [Score.readInt, hkind]) hs
    have hlo := BitVec.le_toInt (s.payload.setWidth 32)
    have hhi := BitVec.toInt_lt (x := s.payload.setWidth 32)
    exact ⟨Numeric.finite (-2 ^ 31 : ℤ), Numeric.finite (2 ^ 31 - 1 : ℤ), rfl, rfl,
      integer _ (-2 ^ 31) (2 ^ 31 - 1) hn hlo (by omega)⟩
  | U_I32 =>
    have hn := value_of_readInt (by rw [Score.readInt, hkind]) hs
    have hhi := (s.payload.setWidth 32).isLt
    exact ⟨Numeric.finite (0 : ℤ), Numeric.finite (2 ^ 32 - 1 : ℤ), rfl, rfl,
      integer _ 0 (2 ^ 32 - 1) hn (by omega) (by omega)⟩
  | I64 =>
    have hn := value_of_readInt (by rw [Score.readInt, hkind]) hs
    have hlo := BitVec.le_toInt (s.payload.setWidth 64)
    have hhi := BitVec.toInt_lt (x := s.payload.setWidth 64)
    exact ⟨Numeric.finite (-2 ^ 63 : ℤ), Numeric.finite (2 ^ 63 - 1 : ℤ), rfl, rfl,
      integer _ (-2 ^ 63) (2 ^ 63 - 1) hn hlo (by omega)⟩
  | U_I64 =>
    have hn := value_of_readInt (by rw [Score.readInt, hkind]) hs
    have hhi := (s.payload.setWidth 64).isLt
    exact ⟨Numeric.finite (0 : ℤ), Numeric.finite (2 ^ 64 - 1 : ℤ), rfl, rfl,
      integer _ 0 (2 ^ 64 - 1) hn (by omega) (by omega)⟩
  | F32 =>
    rw [Score.value, hkind] at hs
    obtain ⟨negative, m, e, he, hm, hexp⟩ := Numeric.ofInterchange_eq_finite (by omega) hs
    rw [he]
    exact ⟨_, _, rfl, rfl, Numeric.scaled_bounds hm hexp⟩
  | F64 =>
    rw [Score.value, hkind] at hs
    obtain ⟨negative, m, e, he, hm, hexp⟩ := Numeric.ofInterchange_eq_finite (by omega) hs
    rw [he]
    exact ⟨_, _, rfl, rfl, Numeric.scaled_bounds hm hexp⟩
  | F128 =>
    rw [Score.value, hkind] at hs
    obtain ⟨negative, m, e, he, hm, hexp⟩ := Numeric.ofExtended_eq_finite hs
    rw [he]
    exact ⟨_, _, rfl, rfl, Numeric.scaled_bounds hm hexp⟩

/-- It is the worst: no finite value of the kind is beaten by it. -/
theorem not_beats_of_worstFinite {goal : Goal} {s : Score} {q : ℚ}
    (hs : s.value = some (Numeric.finite q)) : ¬ Beats goal (worstFinite goal s.kind) s := by
  rintro ⟨a, b, ha, hb, hbetter⟩
  obtain ⟨lowest, highest, hlowest, hhighest, hlo, hhi⟩ := value_bounds hs
  cases hs.symm.trans hb
  cases goal with
  | MAXIMISE =>
    cases ha.symm.trans hlowest
    exact absurd hbetter (not_lt.mpr hlo)
  | MINIMISE =>
    cases ha.symm.trans hhighest
    exact absurd hbetter (not_lt.mpr hhi)

namespace Numeric

theorem scaled_zero (negative : Bool) (e : ℤ) : scaled negative 0 e = finite 0 := by
  rw [scaled, Nat.cast_zero, mul_zero, zero_mul]

theorem scaled_true_neg {m : ℕ} (hm : 0 < m) (e : ℤ) : scaled true m e < finite 0 := by
  have hpos : (0 : ℚ) < m * 2 ^ e := mul_pos (Nat.cast_pos.mpr hm) (zpow_pos two_pos e)
  rw [scaled, if_pos rfl, finite_lt]
  linarith

theorem scaled_false_nonneg (m : ℕ) (e : ℤ) : finite 0 ≤ scaled false m e := by
  have hnonneg : (0 : ℚ) ≤ m * 2 ^ e := mul_nonneg (Nat.cast_nonneg m) (zpow_pos two_pos e).le
  rw [scaled, if_neg Bool.false_ne_true, finite_le]
  linarith

end Numeric

theorem beats_of_values {goal : Goal} {p worst initial : Score} {a b c : Numeric}
    (hp : p.value = some a) (hworst : worst.value = some b) (hinitial : initial.value = some c)
    (hab : goal.Better a b) (hac : ¬ goal.Better a c) :
    Beats goal p worst ∧ ¬ Beats goal p initial := by
  refine ⟨⟨a, b, hp, hworst, hab⟩, ?_⟩
  rintro ⟨a', c', ha, hc, hbetter⟩
  cases hp.symm.trans ha
  cases hinitial.symm.trans hc
  exact hac hbetter

theorem beats_zero {kind : ScoreType} {initial : Score} {m m' : ℕ} {e e' e₀ : ℤ}
    (hzero : (Score.makeRaw kind 0).value = some (Numeric.scaled false 0 e₀))
    (hworst : (worstFinite .MAXIMISE kind).value = some (Numeric.scaled true m e)) (hm : 0 < m)
    (hinitial : initial.value = some (Numeric.scaled false m' e')) :
    Beats .MAXIMISE (.makeRaw kind 0) (worstFinite .MAXIMISE kind) ∧
      ¬ Beats .MAXIMISE (.makeRaw kind 0) initial := by
  rw [Numeric.scaled_zero] at hzero
  exact beats_of_values hzero hworst hinitial (Numeric.scaled_true_neg hm e)
    (not_lt.mpr (Numeric.scaled_false_nonneg m' e'))

/-- The score -2 ^ 40 or 2 ^ 40, beyond the range of a 32-bit `long`. -/
def beyondInt : Goal → Score
  | .MAXIMISE => .makeRaw .I64 0xffffff0000000000
  | .MINIMISE => .makeRaw .I64 0x0000010000000000

/-- An initial score that is not the worst value misses an admissible one. -/
theorem exists_missed {model : DataModel} {goal : Goal} {kind : ScoreType} {initial : Score}
    (h : getDefaultScore model goal kind = some initial) (hne : initial ≠ worstFinite goal kind) :
    ∃ s : Score, s.kind = kind ∧ Beats goal s (worstFinite goal kind) ∧ ¬ Beats goal s initial := by
  cases kind with
  | I32 => cases goal <;> (cases h; exact absurd rfl hne)
  | U_I32 => cases h
  | U_I64 => cases h
  | I64 =>
    cases model with
    | LP64 => cases goal <;> (cases h; exact absurd rfl hne)
    | LLP64 =>
      refine ⟨beyondInt goal, by cases goal <;> rfl, ?_⟩
      cases goal with
      | MAXIMISE =>
        cases h
        apply beats_of_values (a := Numeric.finite (-2 ^ 40 : ℤ))
          (b := Numeric.finite (-2 ^ 63 : ℤ)) (c := Numeric.finite (-2 ^ 31 : ℤ)) rfl rfl rfl
        · exact Numeric.finite_lt.mpr (by norm_num)
        · exact not_lt.mpr (Numeric.finite_le.mpr (by norm_num))
      | MINIMISE =>
        cases h
        apply beats_of_values (a := Numeric.finite (2 ^ 40 : ℤ))
          (b := Numeric.finite (2 ^ 63 - 1 : ℤ)) (c := Numeric.finite (2 ^ 31 - 1 : ℤ)) rfl rfl rfl
        · exact Numeric.finite_lt.mpr (by norm_num)
        · exact not_lt.mpr (Numeric.finite_le.mpr (by norm_num))
  | F32 =>
    cases goal with
    | MAXIMISE =>
      cases h
      exact ⟨_, rfl, beats_zero rfl rfl (by decide) rfl⟩
    | MINIMISE =>
      cases h
      exact absurd rfl hne
  | F64 =>
    cases goal with
    | MAXIMISE =>
      cases h
      exact ⟨_, rfl, beats_zero rfl rfl (by decide) rfl⟩
    | MINIMISE =>
      cases h
      exact absurd rfl hne
  | F128 =>
    cases goal with
    | MAXIMISE =>
      cases h
      exact ⟨_, rfl, beats_zero rfl rfl (by decide) rfl⟩
    | MINIMISE =>
      cases h
      exact absurd rfl hne

end Gempba
