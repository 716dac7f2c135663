import Gempba.Utils.Score

/-!
# The bits of a score

A value of a kind is its bit pattern, `width` bits wide. `make` pads it with
zero bytes, `get` reads it back under its own kind only, and a value of at most
64 bits travels as a raw 64-bit integer.
-/

namespace Gempba

set_option autoImplicit false

/-- `sizeof` of the type of a kind, in bits; a long double fills the payload. -/
def ScoreType.width : ScoreType → ℕ
  | .I32 | .U_I32 | .F32 => 32
  | .I64 | .U_I64 | .F64 => 64
  | .F128 => 128

theorem ScoreType.width_le (kind : ScoreType) : kind.width ≤ 128 := by
  cases kind <;> decide

theorem ScoreType.width_le_raw {kind : ScoreType} (h : kind ≠ .F128) : kind.width ≤ 64 := by
  cases kind with
  | F128 => exact absurd rfl h
  | I32 | U_I32 | F32 | I64 | U_I64 | F64 => decide

namespace Score

def make (kind : ScoreType) (v : BitVec kind.width) : Score := makeRaw kind v.toNat

/-- `none` is the throw on a wrong target type. -/
def get (kind : ScoreType) (s : Score) : Option (BitVec kind.width) :=
  if s.kind ≠ kind then none else some (s.payload.setWidth kind.width)

/-- `none` is the abort on a long double. -/
def toRaw (s : Score) : Option (BitVec 64) :=
  match s.kind with
  | .I32 | .U_I32 | .F32 => some ((s.payload.setWidth 32).setWidth 64)
  | .I64 | .U_I64 | .F64 => some (s.payload.setWidth 64)
  | .F128 => none

def fromRaw (kind : ScoreType) (raw : BitVec 64) : Option Score :=
  match kind with
  | .I32 | .U_I32 | .F32 => some ⟨kind, (raw.setWidth 32).setWidth 128⟩
  | .I64 | .U_I64 | .F64 => some ⟨kind, raw.setWidth 128⟩
  | .F128 => none

theorem payload_make (kind : ScoreType) (v : BitVec kind.width) :
    (make kind v).payload = v.setWidth 128 := by
  apply BitVec.eq_of_toNat_eq
  rw [make, makeRaw, BitVec.toNat_ofNat, BitVec.toNat_setWidth]

theorem setWidth_payload_make (kind : ScoreType) (v : BitVec kind.width) :
    (make kind v).payload.setWidth kind.width = v := by
  rw [payload_make, BitVec.setWidth_setWidth_of_le _ kind.width_le, BitVec.setWidth_eq]

theorem get_make (kind : ScoreType) (v : BitVec kind.width) : (make kind v).get kind = some v := by
  have hkind : ¬ (make kind v).kind ≠ kind := not_not_intro rfl
  rw [get, if_neg hkind, setWidth_payload_make]

theorem toRaw_make {kind : ScoreType} (h : kind ≠ .F128) (v : BitVec kind.width) :
    (make kind v).toRaw = some (v.setWidth 64) := by
  have hpayload := payload_make kind v
  cases kind with
  | F128 => exact absurd rfl h
  | I32 | U_I32 | F32 =>
    rw [toRaw]
    have hback : (v.setWidth 128).setWidth 32 = v.setWidth 32 :=
      BitVec.setWidth_setWidth_of_le v (by decide)
    simp only [make, makeRaw] at hpayload ⊢
    rw [hpayload, hback]
    exact congrArg (fun x : BitVec 32 => some (x.setWidth 64)) (BitVec.setWidth_eq v)
  | I64 | U_I64 | F64 =>
    rw [toRaw]
    simp only [make, makeRaw] at hpayload ⊢
    rw [hpayload, BitVec.setWidth_setWidth_of_le _ (by decide)]

/-- A raw integer is read as the value in its low bits. -/
theorem fromRaw_eq_make {kind : ScoreType} (h : kind ≠ .F128) (raw : BitVec 64) :
    fromRaw kind raw = some (make kind (raw.setWidth kind.width)) := by
  have hpayload := payload_make kind (raw.setWidth kind.width)
  cases kind with
  | F128 => exact absurd rfl h
  | I32 | U_I32 | F32 =>
    rw [fromRaw]
    exact congrArg some (congrArg (Score.mk _) hpayload.symm)
  | I64 | U_I64 | F64 =>
    rw [fromRaw]
    refine congrArg some (congrArg (Score.mk _) (Eq.trans ?_ hpayload.symm))
    exact congrArg (BitVec.setWidth 128) (BitVec.setWidth_eq raw).symm

theorem fromRaw_toRaw {kind : ScoreType} (h : kind ≠ .F128) (v : BitVec kind.width) :
    (make kind v).toRaw.bind (fromRaw kind) = some (make kind v) := by
  rw [toRaw_make h, Option.bind_some, fromRaw_eq_make h,
    BitVec.setWidth_setWidth_of_le _ (ScoreType.width_le_raw h), BitVec.setWidth_eq]

/-- Conversely for a raw integer in the range of the kind. -/
theorem toRaw_fromRaw {kind : ScoreType} (h : kind ≠ .F128) {raw : BitVec 64}
    (hraw : raw.toNat < 2 ^ kind.width) : (fromRaw kind raw).bind toRaw = some raw := by
  rw [fromRaw_eq_make h, Option.bind_some, toRaw_make h]
  refine congrArg some (BitVec.eq_of_toNat_eq ?_)
  rw [BitVec.toNat_setWidth, BitVec.toNat_setWidth, Nat.mod_eq_of_lt hraw,
    Nat.mod_eq_of_lt raw.isLt]

end Score

end Gempba
