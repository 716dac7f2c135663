import Gempba.Schedulers.FetchSolution
import Gempba.Utils.ScoreBits
import Gempba.Utils.ScoreLimits

/-!
# The order of the scores

A score made from an integer stands for that integer, one made from the bits of
a finite float for the number of those bits. Finite scores of any kinds are
ordered as the exact rationals they stand for. The scheduler improves its score
by this order and looks the winning result up by equality; for results of one
kind both pick the same ones.
-/

namespace Gempba

set_option autoImplicit false

/-- `s` stands for the exact number `q`. -/
def Score.IsExactly (s : Score) (q : ℚ) : Prop := s.value = some (Numeric.finite q)

def Score.Finite (s : Score) : Prop := ∃ q, s.IsExactly q

/-- `p <= q`. -/
def Score.le (p q : Score) : Bool := p.threeWay q == some .lt || p.threeWay q == some .eq

theorem Numeric.cmp_finite (a b : ℚ) : cmp (Numeric.finite a) (Numeric.finite b) = cmp a b := by
  have hmono : StrictMono Numeric.finite := fun _ _ => Numeric.finite_lt.mpr
  exact hmono.cmp_map_eq a b

/-- The number with these IEEE fields: a fraction below one at exponent zero, one more at the
others. -/
def fieldsNumber {w m : ℕ} (sign : BitVec 1) (exponent : BitVec w) (mantissa : BitVec m) : ℚ :=
  let bias : ℤ := 2 ^ (w - 1) - 1
  let fraction : ℚ := mantissa.toNat / 2 ^ m
  (-1) ^ sign.toNat *
    if exponent = 0 then fraction * 2 ^ (1 - bias) else (1 + fraction) * 2 ^ (exponent.toNat - bias)

theorem toNat_fields {w m : ℕ} (sign : BitVec 1) (exponent : BitVec w) (mantissa : BitVec m) :
    (sign ++ exponent ++ mantissa).toNat =
      (sign.toNat * 2 ^ w + exponent.toNat) * 2 ^ m + mantissa.toNat := by
  rw [BitVec.toNat_append, ← Nat.shiftLeft_add_eq_or_of_lt mantissa.isLt, BitVec.toNat_append,
    ← Nat.shiftLeft_add_eq_or_of_lt exponent.isLt, Nat.shiftLeft_eq, Nat.shiftLeft_eq]

theorem Numeric.ofInterchange_fields {w m : ℕ} (sign : BitVec 1) (exponent : BitVec w)
    (mantissa : BitVec m) (h : exponent ≠ BitVec.allOnes w) :
    ofInterchange w m (sign ++ exponent ++ mantissa).toNat =
      some (finite (fieldsNumber sign exponent mantissa)) := by
  have hmantissa : ((sign.toNat * 2 ^ w + exponent.toNat) * 2 ^ m + mantissa.toNat) % 2 ^ m =
      mantissa.toNat := Nat.mul_add_mod_of_lt mantissa.isLt
  have hupper : ((sign.toNat * 2 ^ w + exponent.toNat) * 2 ^ m + mantissa.toNat) / 2 ^ m =
      sign.toNat * 2 ^ w + exponent.toNat := by
    rw [Nat.mul_comm, Nat.mul_add_div (Nat.two_pow_pos m), Nat.div_eq_of_lt mantissa.isLt,
      Nat.add_zero]
  have hexponent : (sign.toNat * 2 ^ w + exponent.toNat) % 2 ^ w = exponent.toNat :=
    Nat.mul_add_mod_of_lt exponent.isLt
  have hsign : (sign.toNat * 2 ^ w + exponent.toNat) / 2 ^ w = sign.toNat := by
    rw [Nat.mul_comm, Nat.mul_add_div (Nat.two_pow_pos w), Nat.div_eq_of_lt exponent.isLt,
      Nat.add_zero]
  have hones : exponent.toNat ≠ 2 ^ w - 1 := by
    intro heq
    exact h (BitVec.eq_of_toNat_eq (heq.trans BitVec.toNat_allOnes.symm))
  have hfactor : (if (sign.toNat % 2 == 1) = true then (-1 : ℚ) else 1) = (-1) ^ sign.toNat := by
    obtain hzero | hone : sign.toNat = 0 ∨ sign.toNat = 1 := by omega
    · rw [hzero]
      rfl
    · rw [hone]
      rfl
  rw [toNat_fields]
  simp only [ofInterchange, pow_add, ← Nat.div_div_eq_div_mul, hmantissa, hupper, hexponent, hsign]
  rw [if_neg hones, fieldsNumber]
  by_cases hzero : exponent = 0
  · have hz : exponent.toNat = 0 := congrArg BitVec.toNat hzero
    rw [if_pos hz, if_pos hzero, scaled, hfactor, zpow_sub₀ two_ne_zero, zpow_natCast]
    congr 2
    ring
  · have hnz : exponent.toNat ≠ 0 := fun hz => hzero (BitVec.eq_of_toNat_eq hz)
    rw [if_neg hnz, if_neg hzero, scaled, hfactor, zpow_sub₀ two_ne_zero (_ - _), zpow_natCast]
    congr 2
    push_cast
    field_simp

namespace Score

variable {p q r : Score} {a b : ℚ}

theorem exact_of_readInt {s : Score} {n : ℤ} (h : s.readInt = some n) : s.IsExactly n := by
  rw [IsExactly, value]
  cases hkind : s.kind with
  | I32 | U_I32 | I64 | U_I64 =>
    rw [h]
    rfl
  | F32 | F64 | F128 =>
    rw [readInt, hkind] at h
    cases h

theorem exact_make_32 (v : BitVec 32) :
    (make .I32 v).IsExactly v.toInt ∧ (make .U_I32 v).IsExactly v.toNat := by
  constructor
  · exact exact_of_readInt (congrArg (fun x : BitVec 32 => some x.toInt)
      (setWidth_payload_make .I32 v))
  · exact exact_of_readInt (congrArg (fun x : BitVec 32 => some (x.toNat : ℤ))
      (setWidth_payload_make .U_I32 v))

theorem exact_make_64 (v : BitVec 64) :
    (make .I64 v).IsExactly v.toInt ∧ (make .U_I64 v).IsExactly v.toNat := by
  constructor
  · exact exact_of_readInt (congrArg (fun x : BitVec 64 => some x.toInt)
      (setWidth_payload_make .I64 v))
  · exact exact_of_readInt (congrArg (fun x : BitVec 64 => some (x.toNat : ℤ))
      (setWidth_payload_make .U_I64 v))

theorem exact_make_F32 {sign : BitVec 1} {exponent : BitVec 8} {mantissa : BitVec 23}
    (h : exponent ≠ BitVec.allOnes 8) :
    (make .F32 (sign ++ exponent ++ mantissa)).IsExactly
      (fieldsNumber sign exponent mantissa) := by
  refine Eq.trans ?_ (Numeric.ofInterchange_fields sign exponent mantissa h)
  exact congrArg (fun x : BitVec 32 => Numeric.ofInterchange 8 23 x.toNat)
    (setWidth_payload_make .F32 (sign ++ exponent ++ mantissa))

theorem exact_make_F64 {sign : BitVec 1} {exponent : BitVec 11} {mantissa : BitVec 52}
    (h : exponent ≠ BitVec.allOnes 11) :
    (make .F64 (sign ++ exponent ++ mantissa)).IsExactly
      (fieldsNumber sign exponent mantissa) := by
  refine Eq.trans ?_ (Numeric.ofInterchange_fields sign exponent mantissa h)
  exact congrArg (fun x : BitVec 64 => Numeric.ofInterchange 11 52 x.toNat)
    (setWidth_payload_make .F64 (sign ++ exponent ++ mantissa))

/-- The comparison within a kind and the one by way of long double agree. -/
theorem threeWay_paths (p q : Score) :
    p.threeWay q = compareValues p.value q.value ∧
      p.threeWay q = compareValues p.toLongDouble q.toLongDouble := by
  rw [toLongDouble_eq, toLongDouble_eq]
  exact ⟨threeWay_eq p q, threeWay_eq p q⟩

theorem threeWay_of_exact (hp : p.IsExactly a) (hq : q.IsExactly b) :
    p.threeWay q = some (cmp a b) := by
  rw [threeWay_eq, hp, hq, compareValues, Numeric.cmp_finite]

theorem le_of_exact (hp : p.IsExactly a) (hq : q.IsExactly b) : p.le q = true ↔ a ≤ b := by
  rw [le, threeWay_of_exact hp hq, Bool.or_eq_true, beq_iff_eq, beq_iff_eq, Option.some_inj,
    Option.some_inj, cmp_eq_lt_iff, cmp_eq_eq_iff, le_iff_lt_or_eq]

theorem le_total_of_finite (hp : p.Finite) (hq : q.Finite) : p.le q = true ∨ q.le p = true := by
  obtain ⟨a, ha⟩ := hp
  obtain ⟨b, hb⟩ := hq
  rw [le_of_exact ha hb, le_of_exact hb ha]
  exact le_total a b

theorem le_trans_of_finite (hp : p.Finite) (hq : q.Finite) (hr : r.Finite) (hpq : p.le q = true)
    (hqr : q.le r = true) : p.le r = true := by
  obtain ⟨a, ha⟩ := hp
  obtain ⟨b, hb⟩ := hq
  obtain ⟨c, hc⟩ := hr
  rw [le_of_exact ha hb] at hpq
  rw [le_of_exact hb hc] at hqr
  rw [le_of_exact ha hc]
  exact le_trans hpq hqr

theorem equals_iff (p q : Score) :
    p.equals q = true ↔ p.kind = q.kind ∧ p.threeWay q = some .eq := by
  rw [equals, threeWay_eq]
  split
  · rename_i hne
    constructor
    · intro h
      cases h
    · intro h
      exact absurd h.1 hne
  · rename_i hne
    rw [beq_iff_eq]
    exact ⟨fun h => ⟨not_not.mp hne, h⟩, fun h => h.2⟩

theorem shouldUpdate_of_exact {goal : Goal} (hp : p.IsExactly a) (hq : q.IsExactly b) :
    shouldUpdate goal p q = true ↔ goal.Better (Numeric.finite b) (Numeric.finite a) := by
  rw [shouldUpdate_iff]
  constructor
  · rintro ⟨x, y, hx, hy, hbetter⟩
    cases hq.symm.trans hx
    cases hp.symm.trans hy
    exact hbetter
  · intro hbetter
    exact ⟨_, _, hq, hp, hbetter⟩

/-- Neither improves on the other exactly when they compare equal. -/
theorem shouldUpdate_false_iff {goal : Goal} (hp : p.Finite) (hq : q.Finite) :
    (shouldUpdate goal p q = false ∧ shouldUpdate goal q p = false) ↔
      p.threeWay q = some .eq := by
  obtain ⟨a, ha⟩ := hp
  obtain ⟨b, hb⟩ := hq
  rw [← Bool.not_eq_true, ← Bool.not_eq_true, shouldUpdate_of_exact ha hb,
    shouldUpdate_of_exact hb ha, threeWay_of_exact ha hb, Option.some_inj, cmp_eq_eq_iff]
  cases goal with
  | MAXIMISE =>
    rw [Goal.Better, Goal.Better, Numeric.finite_lt, Numeric.finite_lt, not_lt, not_lt]
    exact ⟨fun h => le_antisymm h.2 h.1, fun h => ⟨h.ge, h.le⟩⟩
  | MINIMISE =>
    rw [Goal.Better, Goal.Better, Numeric.finite_lt, Numeric.finite_lt, not_lt, not_lt]
    exact ⟨fun h => le_antisymm h.1 h.2, fun h => ⟨h.le, h.ge⟩⟩

end Score

section Agreement

variable {W : World} {goal : Goal} {bestResults : Rank W → Result} {globalScore : Score}

/-- No result of the kind of `s` improves on `s`. -/
def Unimproved (goal : Goal) (bestResults : Rank W → Result) (s : Score) : Prop :=
  ∀ v : WorkerRank W, (bestResults v).score.kind = s.kind →
    shouldUpdate goal s (bestResults v).score = false

/-- The results of the kind of the global score are numbers, and it is the best of them by
`should_update`. -/
structure Leading (goal : Goal) (bestResults : Rank W → Result) (globalScore : Score) : Prop where
  finite : ∀ v : WorkerRank W, (bestResults v).score.kind = globalScore.kind →
    (bestResults v).score.Finite
  attained : ∃ v : WorkerRank W, (bestResults v).score = globalScore
  unimproved : Unimproved goal bestResults globalScore

theorem Leading.finite_globalScore (h : Leading goal bestResults globalScore) :
    globalScore.Finite := by
  obtain ⟨v, hv⟩ := h.attained
  rw [← hv]
  exact h.finite v (congrArg Score.kind hv)

/-- The results that `fetch_solution` would accept are those that are best by `should_update`. -/
theorem Leading.equals_iff (h : Leading goal bestResults globalScore) (w : WorkerRank W) :
    (bestResults w).score.equals globalScore = true ↔
      (bestResults w).score.kind = globalScore.kind ∧
        Unimproved goal bestResults (bestResults w).score := by
  rw [Score.equals_iff]
  constructor
  · rintro ⟨hkind, heq⟩
    refine ⟨hkind, fun v hv => ?_⟩
    have hvalue : (bestResults w).score.value = globalScore.value :=
      Score.value_eq_of_equals ((Score.equals_iff _ _).mpr ⟨hkind, heq⟩)
    rw [shouldUpdate_congr hvalue]
    exact h.unimproved v (hv.trans hkind)
  · rintro ⟨hkind, hbest⟩
    obtain ⟨v, hv⟩ := h.attained
    have hback : shouldUpdate goal (bestResults w).score globalScore = false := by
      rw [← hv]
      apply hbest v
      rw [hv, hkind]
    exact ⟨hkind, (Score.shouldUpdate_false_iff (h.finite w hkind) h.finite_globalScore).mp
      ⟨hback, h.unimproved w hkind⟩⟩

end Agreement

/-- A score stands for the number it was made from, scores are ordered as exact numbers, their
bits survive both round trips, and `fetch_solution` gives the packet of the first worker whose
result is best by `should_update`. -/
theorem score_order :
    (∀ v : BitVec 32, (Score.make .I32 v).IsExactly v.toInt ∧
      (Score.make .U_I32 v).IsExactly v.toNat) ∧
    (∀ v : BitVec 64, (Score.make .I64 v).IsExactly v.toInt ∧
      (Score.make .U_I64 v).IsExactly v.toNat) ∧
    (∀ (sign : BitVec 1) (exponent : BitVec 8) (mantissa : BitVec 23),
      exponent ≠ BitVec.allOnes 8 →
        (Score.make .F32 (sign ++ exponent ++ mantissa)).IsExactly
          (fieldsNumber sign exponent mantissa)) ∧
    (∀ (sign : BitVec 1) (exponent : BitVec 11) (mantissa : BitVec 52),
      exponent ≠ BitVec.allOnes 11 →
        (Score.make .F64 (sign ++ exponent ++ mantissa)).IsExactly
          (fieldsNumber sign exponent mantissa)) ∧
    (∀ (s : Score) (n : ℤ), s.readInt = some n → s.IsExactly n) ∧
    (∀ (p q : Score) (a b : ℚ), p.IsExactly a → q.IsExactly b →
      p.threeWay q = some (cmp a b) ∧
        (p.equals q = true ↔ p.kind = q.kind ∧ p.threeWay q = some .eq)) ∧
    (∀ p q : Score, p.Finite → q.Finite → p.le q = true ∨ q.le p = true) ∧
    (∀ p q r : Score, p.Finite → q.Finite → r.Finite → p.le q = true → q.le r = true →
      p.le r = true) ∧
    (∀ p q : Score, p.threeWay q = Score.compareValues p.value q.value ∧
      p.threeWay q = Score.compareValues p.toLongDouble q.toLongDouble) ∧
    (∀ kind : ScoreType, kind ≠ .F128 →
      (∀ v : BitVec kind.width, (Score.make kind v).get kind = some v ∧
        (Score.make kind v).toRaw.bind (Score.fromRaw kind) = some (Score.make kind v)) ∧
      ∀ raw : BitVec 64, raw.toNat < 2 ^ kind.width →
        (Score.fromRaw kind raw).bind Score.toRaw = some raw) ∧
    ∀ (W : World) (goal : Goal) (bestResults : Rank W → Result) (globalScore : Score),
      Leading goal bestResults globalScore →
      ∃ w : WorkerRank W, (bestResults w).score.kind = globalScore.kind ∧
        Unimproved goal bestResults (bestResults w).score ∧
        (∀ v : WorkerRank W, v.val < w.val → (bestResults v).score.kind = globalScore.kind →
          ¬ Unimproved goal bestResults (bestResults v).score) ∧
        fetchSolution bestResults globalScore = (bestResults w).packet := by
  refine ⟨Score.exact_make_32, Score.exact_make_64, fun _ _ _ => Score.exact_make_F32,
    fun _ _ _ => Score.exact_make_F64, fun s n => Score.exact_of_readInt,
    fun p q a b hp hq => ⟨Score.threeWay_of_exact hp hq, Score.equals_iff p q⟩,
    fun p q => Score.le_total_of_finite, fun p q r => Score.le_trans_of_finite,
    Score.threeWay_paths, fun kind hkind => ⟨fun v => ?_, fun raw => ?_⟩, ?_⟩
  · exact ⟨Score.get_make kind v, Score.fromRaw_toRaw hkind v⟩
  · exact Score.toRaw_fromRaw hkind
  · intro W goal bestResults globalScore hleading
    obtain ⟨u, hu⟩ := hleading.attained
    have hself : (bestResults u).score.equals globalScore = true := by
      obtain ⟨q, hq⟩ := hleading.finite_globalScore
      rw [hu]
      exact Score.equals_self hq
    obtain ⟨w, _, hw, hfirst⟩ := exists_first hself
    obtain ⟨hkind, hbest⟩ := (hleading.equals_iff w).mp hw
    refine ⟨w, hkind, hbest, fun v hv hkind' hbest' => ?_, fetchSolution_eq hw hfirst⟩
    have hequal := hfirst v hv
    rw [(hleading.equals_iff v).mpr ⟨hkind', hbest'⟩] at hequal
    cases hequal

/-- Three, five and five from the workers of a world of four. -/
def tiedResults (r : Rank World.four) : Result :=
  if r.val = 0 then .EMPTY else ⟨.makeInt (if r.val = 1 then 3 else 5), [UInt8.ofNat r.val]⟩

theorem score_tiedResults (v : WorkerRank World.four) :
    (tiedResults v).score = if v.val.val = 1 then .makeInt 3 else .makeInt 5 := by
  have hpos : v.val.val ≠ 0 := fun h => v.property (Fin.ext h)
  rw [tiedResults, if_neg hpos]
  split <;> rfl

theorem five_improves : shouldUpdate .MAXIMISE (.makeInt 3) (.makeInt 5) = true ∧
    shouldUpdate .MAXIMISE (.makeInt 5) (.makeInt 3) = false := by
  have hthree : (Score.makeInt 3).IsExactly 3 := (Score.exact_make_32 3).1
  have hfive : (Score.makeInt 5).IsExactly 5 := (Score.exact_make_32 5).1
  rw [← Bool.not_eq_true, Score.shouldUpdate_of_exact hthree hfive,
    Score.shouldUpdate_of_exact hfive hthree]
  have hlt : Numeric.finite 3 < Numeric.finite 5 := Numeric.finite_lt.mpr (by norm_num)
  exact ⟨hlt, not_lt_of_gt hlt⟩

theorem leading_tiedResults : Leading .MAXIMISE tiedResults (.makeInt 5) := by
  refine ⟨fun v _ => ?_, ⟨secondOfFour, rfl⟩, fun v _ => ?_⟩
  · rw [score_tiedResults v]
    split
    · exact ⟨3, (Score.exact_make_32 3).1⟩
    · exact ⟨5, (Score.exact_make_32 5).1⟩
  · rw [score_tiedResults v]
    split
    · exact five_improves.2
    · exact shouldUpdate_self

/-- Mixed comparisons beyond the range of a 64-bit signed integer, and the first of two best
results. -/
theorem score_order_tied :
    (Score.make .U_I64 (BitVec.allOnes 64)).threeWay (.make .I64 (BitVec.allOnes 64)) = some .gt ∧
    (Score.make .U_I64 (BitVec.allOnes 64)).threeWay
      (.make .F64 (0#1 ++ 1087#11 ++ 0#52)) = some .lt ∧
    fetchSolution tiedResults (.makeInt 5) = [2] := by
  obtain ⟨_, hlong, _, hdouble, _, horder, _, _, _, _, hfetch⟩ := score_order
  have htop : (Score.make .U_I64 (BitVec.allOnes 64)).IsExactly (2 ^ 64 - 1) := by
    have h := (hlong (BitVec.allOnes 64)).2
    have heq : (((BitVec.allOnes 64).toNat : ℕ) : ℚ) = 2 ^ 64 - 1 := by norm_num
    rwa [heq] at h
  have hminus : (Score.make .I64 (BitVec.allOnes 64)).IsExactly (-1) := by
    have h := (hlong (BitVec.allOnes 64)).1
    simpa using h
  have hbeyond : (Score.make .F64 (0#1 ++ 1087#11 ++ 0#52)).IsExactly (2 ^ 64) := by
    have h := hdouble 0#1 1087#11 0#52 (by decide)
    have heq : fieldsNumber 0#1 1087#11 0#52 = 2 ^ 64 := by
      rw [fieldsNumber, if_neg (by decide)]
      norm_num
    rwa [heq] at h
  refine ⟨?_, ?_, ?_⟩
  · rw [(horder _ _ _ _ htop hminus).1]
    exact congrArg some ((cmp_eq_gt_iff _ _).mpr (by norm_num))
  · rw [(horder _ _ _ _ htop hbeyond).1]
    exact congrArg some ((cmp_eq_lt_iff _ _).mpr (by norm_num))
  · obtain ⟨w, _, hw, hfirst, hpacket⟩ := hfetch _ _ _ _ leading_tiedResults
    have hone : w.val.val ≠ 1 := by
      intro h
      have hsecond := hw secondOfFour (by rw [score_tiedResults w, if_pos h]; rfl)
      rw [score_tiedResults w, if_pos h] at hsecond
      exact Bool.false_ne_true (hsecond.symm.trans five_improves.1)
    have htwo : ¬ 2 < w.val.val := fun h =>
      hfirst secondOfFour h rfl leading_tiedResults.unimproved
    have hpos : w.val.val ≠ 0 := fun h => w.property (Fin.ext h)
    have hval : w.val.val = 2 := by omega
    rw [hpacket, tiedResults, if_neg hpos, hval]
    rfl

end Gempba
