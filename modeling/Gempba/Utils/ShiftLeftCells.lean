import Gempba.Library.SignedInt
import Gempba.Utils.ShiftLeft

/-!
# The left shift in place

The loop as it is written, over a vector of numbers; its bound is the size
of the vector as an `int`.
-/

namespace Gempba

set_option autoImplicit false

/-- One iteration, the cell not being `-1`. -/
def shiftCell (size : ℤ) (i : ℕ) (v : List ℤ) : List ℤ :=
  let v := v.set i (v.getD (i + 1) 0)
  if i = size - 2 ∧ v.getD i 0 ≠ -1 then v.set (i + 1) (-1) else v

/-- At most `n` iterations from cell `i` on. -/
def shiftCells (size : ℤ) : ℕ → ℕ → List ℤ → List ℤ
  | 0, _, v => v
  | n + 1, i, v =>
    if v.getD i 0 ≠ -1 then shiftCells size n (i + 1) (shiftCell size i v) else v

/-- `none` is the throw. -/
def shiftLeftCells (v : List ℤ) : Option (List ℤ) :=
  let size := SignedInt.wrap v.length
  if size = 0 then none else some (shiftCells size (size - 1).toNat 0 v)

section Cells

variable {pre rest : List ℤ} {a b x : ℤ}

theorem getD_cell : (pre ++ a :: rest).getD pre.length 0 = a := by
  rw [List.getD_eq_getElem?_getD, List.getElem?_append_right (Nat.le_refl _), Nat.sub_self,
    List.getElem?_cons_zero, Option.getD_some]

theorem set_cell : (pre ++ a :: rest).set pre.length x = pre ++ x :: rest := by
  rw [List.set_append_right _ _ (Nat.le_refl _), Nat.sub_self, List.set_cons_zero]

theorem getD_nextCell : (pre ++ a :: b :: rest).getD (pre.length + 1) 0 = b := by
  have hlength : (pre ++ [a]).length = pre.length + 1 := List.length_append
  rw [List.append_cons, ← hlength, getD_cell]

theorem set_nextCell : (pre ++ a :: b :: rest).set (pre.length + 1) x = pre ++ a :: x :: rest := by
  have hlength : (pre ++ [a]).length = pre.length + 1 := List.length_append
  rw [List.append_cons, ← hlength, set_cell, ← List.append_cons]

end Cells

section Loop

variable {ρ : Type} {code : Option ρ → ℤ} {pre rest : List ℤ} {size : ℤ}

theorem shiftLeftLoop_none (w : List (Option ρ)) :
    shiftLeftLoop (none :: w) = none :: w := by
  cases w with
  | nil => rfl
  | cons a w =>
    cases w with
    | nil => rfl
    | cons b w => rfl

/-- From a cell on, the loop shifts the cells up to its bound. -/
theorem shiftCells_append (hcode : ∀ a, code a = -1 ↔ a = none) {w : List (Option ρ)} {n : ℕ}
    (hw : w.length = n + 1) (hsize : (pre.length + n : ℤ) = size - 1) :
    shiftCells size n pre.length (pre ++ (w.map code ++ rest)) =
      pre ++ ((shiftLeftLoop w).map code ++ rest) := by
  induction n generalizing w pre with
  | zero =>
    obtain ⟨a, rfl⟩ := List.length_eq_one_iff.mp hw
    rfl
  | succ n ih =>
    obtain ⟨a, _, rfl⟩ := List.exists_cons_of_length_eq_add_one hw
    obtain ⟨b, w, rfl⟩ := List.exists_cons_of_length_eq_add_one (Nat.succ.inj hw)
    have hnext : ((pre ++ [code b]).length + n : ℤ) = size - 1 := by
      rw [List.length_append, List.length_singleton]
      push_cast at hsize ⊢
      omega
    rw [shiftCells, List.map_cons, List.cons_append, getD_cell]
    obtain rfl | ha := eq_or_ne a none
    · have hstop : code none = -1 := (hcode none).mpr rfl
      rw [if_neg (not_not.mpr hstop), shiftLeftLoop_none]
      rfl
    rw [if_pos (mt (hcode a).mp ha), shiftCell, List.map_cons, List.cons_append, getD_nextCell,
      set_cell, getD_cell]
    cases w with
    | nil =>
      -- the last iteration
      have hn : n = 0 := by
        simp only [List.length_cons, List.length_nil] at hw
        omega
      subst hn
      have hlast : (pre.length : ℤ) = size - 2 := by
        push_cast at hsize
        omega
      rw [shiftCells, shiftLeftLoop, if_neg ha]
      obtain rfl | hb := eq_or_ne b none
      · rw [if_neg fun h => h.2 ((hcode none).mpr rfl), if_neg (not_not.mpr rfl)]
        rfl
      · rw [if_pos ⟨hlast, mt (hcode b).mp hb⟩, if_pos hb, set_nextCell,
          ← (hcode none).mpr rfl]
        rfl
    | cons c w =>
      have hinner : ¬ (pre.length : ℤ) = size - 2 := by
        simp only [List.length_cons] at hw
        push_cast at hsize
        omega
      have hlength : (pre ++ [code b]).length = pre.length + 1 := List.length_append
      have hw' : (b :: c :: w).length = n + 1 := Nat.succ.inj hw
      rw [if_neg fun h => hinner h.1, List.append_cons, ← hlength, ← List.cons_append,
        ← List.map_cons, ih hw' hnext, shiftLeftLoop, if_neg ha, List.append_assoc]
      rfl

/-- The shift runs over as many cells as the size has modulo `2 ^ 32`, if that is not negative. -/
theorem shiftLeftCells_map (hcode : ∀ a, code a = -1 ↔ a = none) (w : List (Option ρ)) :
    let cells := w.length % 2 ^ 32
    shiftLeftCells (w.map code) =
      if cells = 0 then none
      else if cells < 2 ^ 31 then
        some ((shiftLeftLoop (w.take cells) ++ w.drop cells).map code)
      else some (w.map code) := by
  intro cells
  have hle : cells ≤ w.length := Nat.mod_le _ _
  have hlt : cells < 2 ^ 32 := Nat.mod_lt _ (by decide)
  have hwrap := SignedInt.wrap_natCast w.length
  rw [shiftLeftCells, List.length_map, hwrap]
  change (if (cells : ℤ) - (if cells < 2 ^ 31 then (0 : ℤ) else 2 ^ 32) = 0 then _ else _) = _
  obtain hzero | hpos := Nat.eq_zero_or_pos cells
  · rw [hzero]
    rfl
  rw [if_neg hpos.ne']
  obtain hsmall | hlarge := Nat.lt_or_ge cells (2 ^ 31)
  · have hsize : (([] : List ℤ).length + ((cells - 1 : ℕ) : ℤ)) = cells - 1 := by
      rw [List.length_nil]
      omega
    have htake : (w.take cells).length = cells - 1 + 1 := by
      rw [List.length_take]
      omega
    have hshift : _ = _ ++ (_ ++ (w.drop cells).map code) :=
      shiftCells_append hcode htake hsize
    have hnonzero : ¬ (cells : ℤ) = 0 := by omega
    have hiterations : ((cells : ℤ) - 1).toNat = cells - 1 := by omega
    rw [if_pos hsmall, if_pos hsmall, sub_zero, if_neg hnonzero, hiterations]
    rw [← List.map_append, List.take_append_drop, List.nil_append] at hshift
    rw [List.length_nil] at hshift
    rw [hshift, ← List.map_append]
    rfl
  · have hnonzero : ¬ (cells : ℤ) - 2 ^ 32 = 0 := by omega
    have hiterations : ((cells : ℤ) - 2 ^ 32 - 1).toNat = 0 := by omega
    rw [if_neg (Nat.not_lt.mpr hlarge), if_neg (Nat.not_lt.mpr hlarge), if_neg hnonzero,
      hiterations, shiftCells]

/-- Below the range of `int` the loop is the shift over the whole vector. -/
theorem shiftLeftCells_eq_shiftLeft (hcode : ∀ a, code a = -1 ↔ a = none) {w : List (Option ρ)}
    (hw : w.length < 2 ^ 31) :
    shiftLeftCells (w.map code) = (shiftLeft w).map (List.map code) := by
  have hcells : w.length % 2 ^ 32 = w.length := Nat.mod_eq_of_lt (by omega)
  have hmap := shiftLeftCells_map hcode w
  simp only [hcells, if_pos hw, List.take_length, List.drop_length, List.append_nil] at hmap
  rw [hmap, shiftLeft]
  cases w with
  | nil => rfl
  | cons a w => rfl

end Loop

/-! The shift as a pop. -/

/-- The numbers, filled up with `-1`. -/
def filled (xs : List ℤ) (k : ℕ) : List ℤ := xs ++ List.replicate k (-1)

/-- What a pop leaves. -/
def popped : List ℤ → ℕ → List ℤ
  | [], k => filled [] k
  | _ :: xs, k => filled xs (k + 1)

/-- The numbers that stand for a rank. -/
abbrev RankNumber := { r : ℤ // r ≠ -1 }

def code : Option RankNumber → ℤ
  | none => -1
  | some r => r.val

theorem code_eq_iff (a : Option RankNumber) : code a = -1 ↔ a = none := by
  cases a with
  | none => exact ⟨fun _ => rfl, fun _ => rfl⟩
  | some r =>
    constructor
    · intro h
      exact absurd h r.property
    · intro h
      cases h

theorem code_injective : Function.Injective code := by
  intro a b h
  cases a with
  | none => exact ((code_eq_iff b).mp h.symm).symm
  | some r =>
    cases b with
    | none => exact (code_eq_iff _).mp h
    | some s => exact congrArg some (Subtype.ext h)

theorem filled_eq (ys : List RankNumber) (k : ℕ) :
    filled (ys.map Subtype.val) k = (packed ys k).map code := by
  rw [filled, packed, List.map_append, List.map_map, List.map_replicate]
  rfl

section Pop

variable {ρ : Type} {x : ρ} {xs : List ρ} {k cells : ℕ}

theorem pendingRanks_append (xs : List ρ) (rest : List (Option ρ)) :
    pendingRanks (xs.map some ++ none :: rest) = xs := by
  induction xs with
  | nil => rfl
  | cons x xs ih => exact congrArg (x :: ·) ih

theorem packed_inj {xs' : List ρ} {k' : ℕ} (h : packed xs k = packed xs' k') : xs = xs' := by
  rw [← pendingRanks_packed xs k, h, pendingRanks_packed]

theorem take_packed (h : xs.length ≤ cells) (hcells : cells ≤ xs.length + k) :
    (packed xs k).take cells = packed xs (cells - xs.length) := by
  have hk : min (cells - xs.length) k = cells - xs.length := by omega
  rw [packed, List.take_append, List.length_map, List.take_of_length_le (by rwa [List.length_map]),
    List.take_replicate, hk]
  rfl

theorem drop_packed (h : xs.length ≤ cells) :
    (packed xs k).drop cells = List.replicate (k - (cells - xs.length)) none := by
  rw [packed, List.drop_append, List.length_map, List.drop_of_length_le (by rwa [List.length_map]),
    List.drop_replicate, List.nil_append]

/-- The cells from the first to the last rank are within the bound. -/
theorem shift_covered (hcells : cells ≤ (x :: xs).length + k) (htwo : 2 ≤ cells)
    (h : (x :: xs).length ≤ cells) :
    shiftLeftLoop ((packed (x :: xs) k).take cells) ++ (packed (x :: xs) k).drop cells =
      packed xs (k + 1) := by
  have hlength : (x :: xs).length = xs.length + 1 := rfl
  rw [take_packed h hcells, drop_packed h, shiftLeftLoop_packed x xs _ (by omega), packed, packed,
    List.append_assoc, List.replicate_append_replicate]
  congr 2
  omega

/-- A rank beyond the bound does not move up. -/
theorem shift_cut (htwo : 2 ≤ cells) (h : cells < (x :: xs).length) :
    shiftLeftLoop ((packed (x :: xs) k).take cells) ++ (packed (x :: xs) k).drop cells ≠
      packed xs (k + 1) := by
  have hlength : (x :: xs).length = xs.length + 1 := rfl
  have htake : (packed (x :: xs) k).take cells = packed (x :: xs.take (cells - 1)) 0 := by
    obtain ⟨n, rfl⟩ : ∃ n, cells = n + 1 := ⟨cells - 1, by omega⟩
    rw [packed, List.take_append_of_le_length (by rw [List.length_map]; omega), ← List.map_take,
      List.take_succ_cons, Nat.add_sub_cancel, packed, List.replicate_zero, List.append_nil]
  have hpos : 1 ≤ (xs.take (cells - 1)).length + 0 := by
    rw [List.length_take]
    omega
  rw [htake, shiftLeftLoop_packed x _ 0 hpos]
  intro heq
  have hpending := congrArg pendingRanks heq
  rw [pendingRanks_packed, packed, List.append_assoc] at hpending
  have hcut : xs.take (cells - 1) = xs :=
    (pendingRanks_append _ _).symm.trans hpending
  have hshort := congrArg List.length hcut
  rw [List.length_take] at hshort
  omega

theorem shift_nil (hcells : cells ≤ k) :
    shiftLeftLoop ((packed ([] : List ρ) k).take cells) ++ (packed ([] : List ρ) k).drop cells =
      packed [] k := by
  have hle : ([] : List ρ).length + k = k := Nat.zero_add k
  have htake : (packed ([] : List ρ) k).take cells = _ :=
    take_packed (Nat.zero_le cells) (by rwa [hle])
  have hnones : shiftLeftLoop ((packed ([] : List ρ) k).take cells) =
      (packed ([] : List ρ) k).take cells := by
    rw [htake]
    exact shiftLeftLoop_nones _
  rw [hnones, List.take_append_drop]

theorem shift_cons_iff (hcells : cells ≤ (x :: xs).length + k) (hpos : 0 < cells) :
    shiftLeftLoop ((packed (x :: xs) k).take cells) ++ (packed (x :: xs) k).drop cells =
      packed xs (k + 1) ↔ 2 ≤ cells ∧ (x :: xs).length ≤ cells := by
  constructor
  · intro hshift
    have htwo : 2 ≤ cells := by
      by_contra hone
      obtain rfl : cells = 1 := by omega
      -- a single cell is left as it is
      have hsame : packed (x :: xs) k = packed xs (k + 1) := hshift
      exact List.cons_ne_self x xs (packed_inj hsame)
    refine ⟨htwo, ?_⟩
    by_contra hcut
    exact shift_cut htwo (Nat.not_le.mp hcut) hshift
  · rintro ⟨htwo, hcovered⟩
    exact shift_covered hcells htwo hcovered

end Pop

/-- The shift pops the first rank exactly when its bound is none of the sizes that the cast to
`int` spoils, and covers two cells and all ranks, if there is any. -/
theorem shiftLeftCells_pop_iff (xs : List ℤ) (k : ℕ) (hxs : -1 ∉ xs) (hne : filled xs k ≠ []) :
    let cells := (filled xs k).length % 2 ^ 32
    shiftLeftCells (filled xs k) = some (popped xs k) ↔
      0 < cells ∧ (xs = [] ∨ (2 ≤ cells ∧ cells < 2 ^ 31 ∧ xs.length ≤ cells)) := by
  intro cells
  obtain ⟨ys, rfl⟩ : ∃ ys : List RankNumber, xs = ys.map Subtype.val :=
    ⟨xs.attachWith (· ≠ -1) fun x hx hx' => hxs (hx' ▸ hx),
      (List.attachWith_map_subtype_val _).symm⟩
  have hlength : (filled (ys.map Subtype.val) k).length = ys.length + k := by
    rw [filled_eq, List.length_map, length_packed]
  have hcells : cells ≤ ys.length + k := hlength ▸ Nat.mod_le _ _
  have hmap := shiftLeftCells_map code_eq_iff (packed ys k)
  rw [← filled_eq, length_packed, ← hlength] at hmap
  change shiftLeftCells _ = if cells = 0 then _ else if cells < 2 ^ 31 then
    some ((shiftLeftLoop ((packed ys k).take cells) ++ (packed ys k).drop cells).map code)
    else _ at hmap
  rw [hmap]
  clear_value cells
  obtain hzero | hpos := Nat.eq_zero_or_pos cells
  · rw [if_pos hzero]
    constructor
    · intro h
      cases h
    · intro h
      exact absurd hzero h.1.ne'
  rw [if_neg hpos.ne']
  cases ys with
  | nil =>
    have hk : cells ≤ k := by simpa using hcells
    have hpopped : popped (([] : List RankNumber).map Subtype.val) k = (packed [] k).map code :=
      filled_eq [] k
    rw [shift_nil hk, filled_eq, ite_self, hpopped]
    exact ⟨fun _ => ⟨hpos, Or.inl rfl⟩, fun _ => rfl⟩
  | cons y ys =>
    have hne' : ¬ (y :: ys).map Subtype.val = [] := List.cons_ne_nil _ _
    have hpopped : popped ((y :: ys).map Subtype.val) k = (packed ys (k + 1)).map code :=
      filled_eq ys (k + 1)
    rw [hpopped, List.length_map]
    obtain hsmall | hlarge := Nat.lt_or_ge cells (2 ^ 31)
    · rw [if_pos hsmall, Option.some_inj, List.map_inj_right fun _ _ h => code_injective h,
        shift_cons_iff hcells hpos]
      constructor
      · rintro ⟨htwo, hcovered⟩
        exact ⟨hpos, Or.inr ⟨htwo, hsmall, hcovered⟩⟩
      · rintro ⟨_, hnil | ⟨htwo, _, hcovered⟩⟩
        · exact absurd hnil hne'
        · exact ⟨htwo, hcovered⟩
    · rw [if_neg (Nat.not_lt.mpr hlarge), Option.some_inj, filled_eq,
        List.map_inj_right fun _ _ h => code_injective h]
      constructor
      · intro h
        exact absurd (packed_inj h) (List.cons_ne_self y ys)
      · rintro ⟨_, hnil | ⟨_, hsmall, _⟩⟩
        · exact absurd hnil hne'
        · exact absurd hsmall (Nat.not_lt.mpr hlarge)

theorem shiftLeftCells_pop_iff_two :
    let cells := (filled [4, 7] 1).length % 2 ^ 32
    shiftLeftCells (filled [4, 7] 1) = some (popped [4, 7] 1) ↔
      0 < cells ∧ ([4, 7] = ([] : List ℤ) ∨
        (2 ≤ cells ∧ cells < 2 ^ 31 ∧ ([4, 7] : List ℤ).length ≤ cells)) :=
  shiftLeftCells_pop_iff [4, 7] 1 (by decide) (by decide)

/-- The only rank of a vector of one cell stays. -/
theorem shiftLeftCells_single : ¬ ∀ (xs : List ℤ) (k : ℕ), -1 ∉ xs → filled xs k ≠ [] →
    shiftLeftCells (filled xs k) = some (popped xs k) := by
  intro hall
  have hpopped := hall [5] 0 (by decide) (by decide)
  have hstays : shiftLeftCells (filled [5] 0) = some [5] := by decide
  rw [hstays] at hpopped
  exact absurd hpopped (by decide)

end Gempba
