import Gempba.Telemetry.BroadcastLines
import Mathlib.Tactic.IntervalCases

/-!
# The id of a run

Sixteen random bytes, of which six bits are overwritten, written as a UUID of
version 4. The bytes come from two words of the random engine, low byte first.
-/

namespace Gempba.Telemetry

set_option autoImplicit false

open Json (bytes MINUS)

abbrev UuidBytes := Vector UInt8 16

/-- The version in the high half of byte 6, the variant in the two high bits of byte 8. -/
def overwriteVersion (b : UuidBytes) : UuidBytes :=
  let b := b.set 6 ((b[6] &&& 0x0F) ||| 0x40)
  b.set 8 ((b[8] &&& 0x3F) ||| 0x80)

def formatByte (c : UInt8) : Bytes := [hexDigit (c.toNat / 16), hexDigit (c.toNat % 16)]

/-- The loop of `format_uuid_v4` from byte `i` on. -/
def formatUuidFrom : ℕ → List UInt8 → Bytes
  | _, [] => []
  | i, c :: s =>
    (if i = 4 ∨ i = 6 ∨ i = 8 ∨ i = 10 then [MINUS] else []) ++ formatByte c ++
      formatUuidFrom (i + 1) s

def formatUuidV4 (b : UuidBytes) : Bytes := formatUuidFrom 0 (overwriteVersion b).toList

def wordByte (word : UInt64) (j : ℕ) : UInt8 := (word >>> UInt64.ofNat (8 * j)).toUInt8

/-- The bytes of the two words that the engine draws. -/
def drawnBytes (first second : UInt64) : UuidBytes :=
  .ofFn fun i => if i.val < 8 then wordByte first i.val else wordByte second (i.val - 8)

def generateRunId (first second : UInt64) : Bytes := formatUuidV4 (drawnBytes first second)

/-! ## The shape of an id -/

def IsHexLower (c : UInt8) : Prop := 0x30 ≤ c ∧ c ≤ 0x39 ∨ 0x61 ≤ c ∧ c ≤ 0x66

/-- Groups of 8, 4, 4, 4 and 12 digits; the third starts with the version, the fourth with the
variant. -/
structure IsUuidV4 (text : Bytes) : Prop where
  groups : ∃ a b c d e : Bytes, text = a ++ MINUS :: (b ++ MINUS :: (c ++ MINUS :: (d ++
      MINUS :: e))) ∧
    a.length = 8 ∧ b.length = 4 ∧ c.length = 4 ∧ d.length = 4 ∧ e.length = 12 ∧
    c.head? = some 0x34 ∧ (∃ x ∈ bytes "89ab", d.head? = some x) ∧
    ∀ x ∈ a ++ b ++ c ++ d ++ e, IsHexLower x

theorem isHexLower_hexDigit : ∀ n < 16, IsHexLower (hexDigit n) := by
  unfold IsHexLower
  decide

theorem formatByte_hexLower (c : UInt8) : ∀ x ∈ formatByte c, IsHexLower x := by
  have hlt := c.toNat_lt
  intro x hx
  obtain rfl | hx := List.mem_cons.mp hx
  · exact isHexLower_hexDigit _ (by omega)
  · rw [List.mem_singleton.mp hx]
    exact isHexLower_hexDigit _ (by omega)

theorem overwritten_toNat : ∀ n < 256,
    ((UInt8.ofNat n &&& 0x0F) ||| 0x40).toNat = (UInt8.ofNat n &&& 0x0F).toNat + 0x40 ∧
      ((UInt8.ofNat n &&& 0x3F) ||| 0x80).toNat = (UInt8.ofNat n &&& 0x3F).toNat + 0x80 := by
  decide +kernel

theorem version_toNat (c : UInt8) :
    ((c &&& 0x0F) ||| 0x40).toNat = (c &&& 0x0F).toNat + 0x40 := by
  have h := (overwritten_toNat c.toNat c.toNat_lt).1
  rwa [UInt8.ofNat_toNat] at h

theorem variant_toNat (c : UInt8) :
    ((c &&& 0x3F) ||| 0x80).toNat = (c &&& 0x3F).toNat + 0x80 := by
  have h := (overwritten_toNat c.toNat c.toNat_lt).2
  rwa [UInt8.ofNat_toNat] at h

theorem version_digit (c : UInt8) : hexDigit (((c &&& 0x0F) ||| 0x40).toNat / 16) = 0x34 := by
  have hle : (c &&& 0x0F).toNat ≤ 0x0F := by
    rw [UInt8.toNat_and]
    exact Nat.and_le_right
  have hfour : ((c &&& 0x0F).toNat + 0x40) / 16 = 4 := by omega
  rw [version_toNat, hfour]
  rfl

theorem variant_digit (c : UInt8) :
    hexDigit (((c &&& 0x3F) ||| 0x80).toNat / 16) ∈ bytes "89ab" := by
  have hrange : ∀ n, 8 ≤ n → n < 12 → hexDigit n ∈ bytes "89ab" := by
    intro n hle hlt
    interval_cases n <;> decide
  have hle : (c &&& 0x3F).toNat ≤ 0x3F := by
    rw [UInt8.toNat_and]
    exact Nat.and_le_right
  rw [variant_toNat]
  apply hrange
  · omega
  · omega

theorem overwriteVersion_toList (b : UuidBytes) : (overwriteVersion b).toList =
    [b[0], b[1], b[2], b[3], b[4], b[5], (b[6] &&& 0x0F) ||| 0x40, b[7],
      (b[8] &&& 0x3F) ||| 0x80, b[9], b[10], b[11], b[12], b[13], b[14], b[15]] := by
  apply List.ext_getElem
  · rw [Vector.length_toList]
    rfl
  · intro i hi _
    rw [Vector.length_toList] at hi
    rw [Vector.getElem_toList]
    unfold overwriteVersion
    interval_cases i <;> simp

theorem isUuidV4_formatUuidV4 (b : UuidBytes) : IsUuidV4 (formatUuidV4 b) := by
  have hbytes : ∀ (l : List UInt8), ∀ x ∈ l.flatMap formatByte, IsHexLower x := by
    intro l x hx
    obtain ⟨c, _, hx⟩ := List.mem_flatMap.mp hx
    exact formatByte_hexLower c x hx
  rw [formatUuidV4, overwriteVersion_toList]
  refine ⟨[b[0], b[1], b[2], b[3]].flatMap formatByte, [b[4], b[5]].flatMap formatByte,
    [(b[6] &&& 0x0F) ||| 0x40, b[7]].flatMap formatByte,
    [(b[8] &&& 0x3F) ||| 0x80, b[9]].flatMap formatByte,
    [b[10], b[11], b[12], b[13], b[14], b[15]].flatMap formatByte,
    rfl, rfl, rfl, rfl, rfl, rfl, congrArg some (version_digit b[6]),
    ⟨_, variant_digit b[8], rfl⟩, ?_⟩
  rw [← List.flatMap_append, ← List.flatMap_append, ← List.flatMap_append, ← List.flatMap_append]
  exact hbytes _

/-- An id needs no escape. -/
theorem unescaped_formatUuidV4 (b : UuidBytes) : Unescaped (formatUuidV4 b) := by
  have hdigit : ∀ c, IsHexLower c → 0x20 ≤ c ∧ c ≠ Json.QUOTE ∧ c ≠ Json.BACKSLASH := by
    intro c hc
    rw [Json.QUOTE, Json.BACKSLASH]
    unfold IsHexLower at hc
    grind
  obtain ⟨u, v, w, x, y, htext, _, _, _, _, _, _, _, hdigits⟩ := (isUuidV4_formatUuidV4 b).groups
  intro c hc
  rw [htext] at hc
  have hminus : ∀ s : Bytes, c ∈ MINUS :: s → c = MINUS ∨ c ∈ s := fun _ => List.mem_cons.mp
  have hmem : c = MINUS ∨ c ∈ u ++ v ++ w ++ x ++ y := by
    simp only [List.mem_append, List.mem_cons] at hc ⊢
    tauto
  obtain rfl | hmem := hmem
  · decide
  · exact hdigit c (hdigits c hmem)

/-! ## When two ids are the same -/

theorem hexDigit_injective : ∀ n < 16, ∀ m < 16, hexDigit n = hexDigit m → n = m := by
  decide

theorem formatByte_injective {c d : UInt8} (h : formatByte c = formatByte d) : c = d := by
  have hc := c.toNat_lt
  have hd := d.toNat_lt
  obtain ⟨hhigh, hlow⟩ := List.cons.inj h
  have hhigh := hexDigit_injective _ (by omega) _ (by omega) hhigh
  have hlow := hexDigit_injective _ (by omega) _ (by omega) (List.cons.inj hlow).1
  apply UInt8.toNat_inj.mp
  omega

theorem formatUuidFrom_injective {i : ℕ} {s t : List UInt8} (hlength : s.length = t.length)
    (h : formatUuidFrom i s = formatUuidFrom i t) : s = t := by
  induction s generalizing i t with
  | nil => exact (List.length_eq_zero_iff.mp hlength.symm).symm
  | cons c s ih =>
    obtain ⟨d, t, rfl⟩ := List.exists_cons_of_length_eq_add_one hlength.symm
    simp only [formatUuidFrom, List.append_assoc] at h
    obtain ⟨hbyte, hrest⟩ := List.append_inj (List.append_cancel_left h) rfl
    rw [formatByte_injective hbyte, ih (Nat.succ_injective hlength) hrest]

theorem formatUuidV4_eq_iff {b c : UuidBytes} :
    formatUuidV4 b = formatUuidV4 c ↔ overwriteVersion b = overwriteVersion c := by
  constructor
  · intro h
    apply Vector.toList_inj.mp
    apply formatUuidFrom_injective _ h
    rw [Vector.length_toList, Vector.length_toList]
  · intro h
    rw [formatUuidV4, h, formatUuidV4]

theorem testBit_wordByte {word : UInt64} {i j : ℕ} (hj : j < 8) (hi : i < 8) :
    (wordByte word j).toNat.testBit i = word.toNat.testBit (8 * j + i) := by
  have hshift : (UInt64.ofNat (8 * j)).toNat % 64 = 8 * j := by
    rw [UInt64.toNat_ofNat']
    omega
  rw [wordByte, UInt64.toNat_toUInt8, UInt64.toNat_shiftRight, hshift, Nat.testBit_mod_two_pow,
    decide_eq_true hi, Bool.true_and, Nat.testBit_shiftRight]

/-- A word is given by its bytes. -/
theorem word_eq_iff {word other : UInt64} :
    word = other ↔ ∀ j < 8, wordByte word j = wordByte other j := by
  constructor
  · rintro rfl _ _
    rfl
  · intro h
    apply UInt64.toNat_inj.mp
    apply Nat.eq_of_testBit_eq
    intro k
    obtain hk | hk := Nat.lt_or_ge k 64
    · have hbyte := congrArg (fun c : UInt8 => c.toNat.testBit (k % 8)) (h (k / 8) (by omega))
      rw [testBit_wordByte (by omega) (by omega), testBit_wordByte (by omega) (by omega),
        Nat.div_add_mod] at hbyte
      exact hbyte
    · have hpow : (2 : ℕ) ^ 64 ≤ 2 ^ k := Nat.pow_le_pow_right (by omega) hk
      rw [Nat.testBit_lt_two_pow (word.toNat_lt.trans_le hpow),
        Nat.testBit_lt_two_pow (other.toNat_lt.trans_le hpow)]

theorem wordByte_and {word mask : UInt64} {j : ℕ} (hj : j < 8) :
    wordByte (word &&& mask) j = wordByte word j &&& wordByte mask j := by
  apply UInt8.toNat_inj.mp
  apply Nat.eq_of_testBit_eq
  intro i
  rw [UInt8.toNat_and, Nat.testBit_and]
  obtain hi | hi := Nat.lt_or_ge i 8
  · rw [testBit_wordByte hj hi, testBit_wordByte hj hi, testBit_wordByte hj hi, UInt64.toNat_and,
      Nat.testBit_and]
  · have hpow : (2 : ℕ) ^ 8 ≤ 2 ^ i := Nat.pow_le_pow_right (by omega) hi
    rw [Nat.testBit_lt_two_pow ((wordByte (word &&& mask) j).toNat_lt.trans_le hpow),
      Nat.testBit_lt_two_pow ((wordByte word j).toNat_lt.trans_le hpow), Bool.false_and]

/-- The bits of the first word that are not overwritten: all but the version. -/
def FIRST_WORD_MASK : UInt64 := 0xFF0FFFFFFFFFFFFF

/-- The bits of the second word that are not overwritten: all but the variant. -/
def SECOND_WORD_MASK : UInt64 := 0xFFFFFFFFFFFFFF3F

theorem wordByte_firstMask :
    ∀ j < 8, wordByte FIRST_WORD_MASK j = if j = 6 then 0x0F else 0xFF := by
  decide

theorem wordByte_secondMask :
    ∀ j < 8, wordByte SECOND_WORD_MASK j = if j = 0 then 0x3F else 0xFF := by
  decide

/-- Words agree under a mask that keeps part of one byte. -/
theorem and_mask_eq_iff {word other mask : UInt64} {i : ℕ} {part : UInt8} (hi : i < 8)
    (hmask : ∀ j < 8, wordByte mask j = if j = i then part else 0xFF) :
    word &&& mask = other &&& mask ↔ (∀ j < 8, j ≠ i → wordByte word j = wordByte other j) ∧
      wordByte word i &&& part = wordByte other i &&& part := by
  have hbyte : ∀ w : UInt64, ∀ j < 8, wordByte (w &&& mask) j =
      if j = i then wordByte w i &&& part else wordByte w j := by
    intro w j hj
    rw [wordByte_and hj, hmask j hj]
    split
    · rename_i heq
      rw [heq]
    · exact UInt8.and_neg_one
  rw [word_eq_iff]
  constructor
  · intro h
    constructor
    · intro j hj hne
      have hj' := h j hj
      rwa [hbyte word j hj, hbyte other j hj, if_neg hne, if_neg hne] at hj'
    · have hi' := h i hi
      rwa [hbyte word i hi, hbyte other i hi, if_pos rfl, if_pos rfl] at hi'
  · rintro ⟨hrest, hpart⟩ j hj
    rw [hbyte word j hj, hbyte other j hj]
    split
    · exact hpart
    · rename_i hne
      exact hrest j hj hne

theorem overwriteVersion_drawnBytes (first second : UInt64) :
    (overwriteVersion (drawnBytes first second)).toList =
      [wordByte first 0, wordByte first 1, wordByte first 2, wordByte first 3, wordByte first 4,
        wordByte first 5, (wordByte first 6 &&& 0x0F) ||| 0x40, wordByte first 7,
        (wordByte second 0 &&& 0x3F) ||| 0x80, wordByte second 1, wordByte second 2,
        wordByte second 3, wordByte second 4, wordByte second 5, wordByte second 6,
        wordByte second 7] := by
  rw [overwriteVersion_toList]
  simp [drawnBytes]

theorem version_injective {c d : UInt8} (h : (c &&& 0x0F) ||| 0x40 = (d &&& 0x0F) ||| 0x40) :
    c &&& 0x0F = d &&& 0x0F := by
  have hnat := congrArg UInt8.toNat h
  rw [version_toNat, version_toNat] at hnat
  exact UInt8.toNat_inj.mp (Nat.add_right_cancel hnat)

theorem variant_injective {c d : UInt8} (h : (c &&& 0x3F) ||| 0x80 = (d &&& 0x3F) ||| 0x80) :
    c &&& 0x3F = d &&& 0x3F := by
  have hnat := congrArg UInt8.toNat h
  rw [variant_toNat, variant_toNat] at hnat
  exact UInt8.toNat_inj.mp (Nat.add_right_cancel hnat)

/-- An id is a UUID of version 4, and two runs share it exactly when the engine drew the same 122
bits for both. -/
theorem generateRunId_unique (first second : UInt64) :
    IsUuidV4 (generateRunId first second) ∧ ∀ first' second' : UInt64,
      generateRunId first second = generateRunId first' second' ↔
        first &&& FIRST_WORD_MASK = first' &&& FIRST_WORD_MASK ∧
          second &&& SECOND_WORD_MASK = second' &&& SECOND_WORD_MASK := by
  refine ⟨isUuidV4_formatUuidV4 _, fun first' second' => ?_⟩
  rw [generateRunId, generateRunId, formatUuidV4_eq_iff, ← Vector.toList_inj,
    overwriteVersion_drawnBytes, overwriteVersion_drawnBytes,
    and_mask_eq_iff (by omega) wordByte_firstMask, and_mask_eq_iff (by omega) wordByte_secondMask]
  simp only [List.cons.injEq, and_true]
  constructor
  · rintro ⟨h0, h1, h2, h3, h4, h5, h6, h7, h8, h9, h10, h11, h12, h13, h14, h15⟩
    refine ⟨⟨?_, version_injective h6⟩, ?_, variant_injective h8⟩
    · intro j hj hne
      interval_cases j <;> first | assumption | exact absurd rfl hne
    · intro j hj hne
      interval_cases j <;> first | assumption | exact absurd rfl hne
  · rintro ⟨⟨hfirst, hversion⟩, hsecond, hvariant⟩
    rw [hversion, hvariant]
    simp [hfirst, hsecond]

end Gempba.Telemetry
