import Mathlib.Data.List.Basic
import Mathlib.Data.Nat.Notation

/-!
# Readers with a latched error

A reader walks over a buffer with a bounds-checked cursor. A block that does
not fit latches the error and leaves the cursor where it is; the readers after
it run on. A read past the end is a fault. The trace is bookkeeping: it records
the overruns and the rounds of the loops.
-/

namespace Latched

set_option autoImplicit false

inductive Mark where
  | overrun | round
  deriving DecidableEq, Repr

structure Cursor where
  pos : ℕ
  ok : Bool
  trace : List Mark
  deriving DecidableEq, Repr

def Cursor.start : Cursor := ⟨0, true, []⟩

/-- `none` is a read past the end of the buffer. -/
def Reader (β α : Type) : Type := List β → Cursor → Option (α × Cursor)

namespace Reader

variable {β α γ : Type}

instance : Monad (Reader β) where
  pure a := fun _ c => some (a, c)
  bind f g := fun data c => (f data c).bind fun r => g r.1 data r.2

/-- The elements at the cursor, one read each. -/
def peek (n : ℕ) : Reader β (List β) := fun data c =>
  ((List.range n).mapM fun i => data[c.pos + i]?).map fun elements => (elements, c)

/-- Whether the next `n` elements are there; if not, the error is latched. -/
def take (n : ℕ) : Reader β Bool := fun data c =>
  if data.length < c.pos + n then
    some (false, { c with ok := false, trace := c.trace ++ [.overrun] })
  else some (true, c)

def advance (n : ℕ) : Reader β Unit := fun _ c => some ((), { c with pos := c.pos + n })

def isOk : Reader β Bool := fun _ c => some (c.ok, c)

def round : Reader β Unit := fun _ c => some ((), { c with trace := c.trace ++ [.round] })

/-- The next `n` elements decoded, or a default when they do not fit. -/
def block (n : ℕ) (decode : List β → α) (default : α) : Reader β α := do
  if ← take n then
    let elements ← peek n
    advance n
    return decode elements
  else
    return default

/-- At most `n` rounds, none after an error. -/
def whileOk (f : Reader β α) : ℕ → Reader β (List α)
  | 0 => pure []
  | n + 1 => do
    if ← isOk then
      round
      let a ← f
      let as ← whileOk f n
      return a :: as
    else
      return []

end Reader

/-- What holds of a cursor over `data` at any time. -/
structure Cursor.Good {β : Type} (data : List β) (c : Cursor) : Prop where
  inBounds : c.pos ≤ data.length
  latched : .overrun ∈ c.trace → c.ok = false
  stops : c.trace.Pairwise fun a b => a = .overrun → b ≠ .round

theorem Cursor.good_start {β : Type} (data : List β) : Cursor.start.Good data :=
  ⟨Nat.zero_le _, fun h => absurd h List.not_mem_nil, List.Pairwise.nil⟩

namespace Reader

variable {β α γ : Type}

/-- Reads without a fault, keeps the error latched, and what it read without an error does not
depend on what follows. -/
structure Sound (f : Reader β α) : Prop where
  good : ∀ {data c}, c.Good data → ∃ a c', f data c = some (a, c') ∧ c'.Good data
  latch : ∀ {data c a c'}, f data c = some (a, c') → c'.ok = true → c.ok = true
  extend : ∀ {data c a c'} (more : List β), f data c = some (a, c') → c'.ok = true →
    f (data ++ more) c = some (a, c')

/-- Reads `a` off the front of what follows the cursor. -/
def Reads (f : Reader β α) (encoding : List β) (a : α) : Prop :=
  ∀ (before after : List β) (c : Cursor), c.pos = before.length → c.ok = true →
    ∃ trace, f (before ++ encoding ++ after) c =
      some (a, ⟨before.length + encoding.length, true, trace⟩)

theorem bind_eq_some {f : Reader β α} {g : α → Reader β γ} {data : List β} {c c' : Cursor} {b : γ} :
    (f >>= g) data c = some (b, c') ↔
      ∃ a c₁, f data c = some (a, c₁) ∧ g a data c₁ = some (b, c') := by
  constructor
  · intro h
    obtain ⟨⟨a, c₁⟩, hf, hg⟩ := Option.bind_eq_some_iff.mp h
    exact ⟨a, c₁, hf, hg⟩
  · rintro ⟨a, c₁, hf, hg⟩
    exact Option.bind_eq_some_iff.mpr ⟨(a, c₁), hf, hg⟩

theorem peek_eq {n : ℕ} {data : List β} {c : Cursor} (h : c.pos + n ≤ data.length) :
    peek n data c = some ((data.drop c.pos).take n, c) := by
  have hmap : ((List.range n).mapM fun i => data[c.pos + i]?) =
      some ((data.drop c.pos).take n) := by
    induction n with
    | zero => rfl
    | succ n ih =>
      rw [List.range_succ, List.mapM_append, ih (by omega)]
      have hget : data[c.pos + n]? = some data[c.pos + n] := List.getElem?_eq_getElem (by omega)
      have hlt : n < (data.drop c.pos).length := by
        rw [List.length_drop]
        omega
      rw [List.take_succ_eq_append_getElem hlt, List.getElem_drop]
      simp [hget]
  rw [peek, hmap]
  rfl

theorem block_of_fits {n : ℕ} {decode : List β → α} {default : α} {data : List β} {c : Cursor}
    (h : c.pos + n ≤ data.length) : block n decode default data c =
      some (decode ((data.drop c.pos).take n), { c with pos := c.pos + n }) := by
  have htake : take n data c = some (true, c) := if_neg (by omega)
  refine bind_eq_some.mpr ⟨true, c, htake, ?_⟩
  exact bind_eq_some.mpr ⟨_, c, peek_eq h, rfl⟩

theorem block_of_overrun {n : ℕ} {decode : List β → α} {default : α} {data : List β} {c : Cursor}
    (h : data.length < c.pos + n) : block n decode default data c =
      some (default, { c with ok := false, trace := c.trace ++ [.overrun] }) := by
  have htake : take n data c =
      some (false, { c with ok := false, trace := c.trace ++ [.overrun] }) := if_pos h
  exact bind_eq_some.mpr ⟨false, _, htake, rfl⟩

theorem sound_pure (a : α) : Sound (pure a : Reader β α) where
  good h := ⟨a, _, rfl, h⟩
  latch h hok := by
    cases h
    exact hok
  extend _ h _ := h

theorem sound_block (n : ℕ) (decode : List β → α) (default : α) :
    Sound (block n decode default) where
  good {data c} h := by
    obtain hover | hfits := Nat.lt_or_ge data.length (c.pos + n)
    · refine ⟨_, _, block_of_overrun hover, h.inBounds, fun _ => rfl, ?_⟩
      rw [List.pairwise_append]
      refine ⟨h.stops, List.pairwise_singleton _ _, fun a _ b hb _ => ?_⟩
      rw [List.mem_singleton.mp hb]
      exact Mark.noConfusion
    · exact ⟨_, _, block_of_fits hfits, hfits, h.latched, h.stops⟩
  latch {data c a c'} h hok := by
    obtain hover | hfits := Nat.lt_or_ge data.length (c.pos + n)
    · rw [block_of_overrun hover] at h
      cases h
      cases hok
    · rw [block_of_fits hfits] at h
      cases h
      exact hok
  extend {data c a c'} more h hok := by
    obtain hover | hfits := Nat.lt_or_ge data.length (c.pos + n)
    · rw [block_of_overrun hover] at h
      cases h
      cases hok
    · have hfits' : c.pos + n ≤ (data ++ more).length := by
        rw [List.length_append]
        omega
      have hsame : ((data ++ more).drop c.pos).take n = (data.drop c.pos).take n := by
        rw [List.drop_append_of_le_length (by omega), List.take_append_of_le_length]
        rw [List.length_drop]
        omega
      rw [block_of_fits hfits', hsame]
      rw [block_of_fits hfits] at h
      exact h

theorem Sound.bind {f : Reader β α} {g : α → Reader β γ} (hf : Sound f) (hg : ∀ a, Sound (g a)) :
    Sound (f >>= g) where
  good h := by
    obtain ⟨a, c₁, hfa, h₁⟩ := hf.good h
    obtain ⟨b, c₂, hgb, h₂⟩ := (hg a).good h₁
    exact ⟨b, c₂, bind_eq_some.mpr ⟨a, c₁, hfa, hgb⟩, h₂⟩
  latch h hok := by
    obtain ⟨a, c₁, hfa, hgb⟩ := bind_eq_some.mp h
    exact hf.latch hfa ((hg a).latch hgb hok)
  extend more h hok := by
    obtain ⟨a, c₁, hfa, hgb⟩ := bind_eq_some.mp h
    have hok₁ := (hg a).latch hgb hok
    exact bind_eq_some.mpr ⟨a, c₁, hf.extend more hfa hok₁, (hg a).extend more hgb hok⟩

theorem whileOk_of_error {f : Reader β α} {n : ℕ} {data : List β} {c : Cursor}
    (h : c.ok = false) : whileOk f n data c = some ([], c) := by
  cases n with
  | zero => rfl
  | succ n =>
    refine bind_eq_some.mpr ⟨false, c, ?_, rfl⟩
    rw [isOk, h]

/-- The body of a round that is entered. -/
def roundThen (f : Reader β α) (rest : Reader β (List α)) : Reader β (List α) := do
  let a ← f
  let as ← rest
  return a :: as

theorem whileOk_succ {f : Reader β α} {n : ℕ} {data : List β} {c : Cursor} (h : c.ok = true) :
    whileOk f (n + 1) data c =
      roundThen f (whileOk f n) data { c with trace := c.trace ++ [.round] } := by
  obtain ⟨pos, ok, trace⟩ := c
  cases h
  rfl

theorem Sound.roundThen {f : Reader β α} {rest : Reader β (List α)} (hf : Sound f)
    (hrest : Sound rest) : Sound (roundThen f rest) :=
  hf.bind fun _ => hrest.bind fun _ => sound_pure _

theorem Sound.whileOk {f : Reader β α} (hf : Sound f) (n : ℕ) : Sound (whileOk f n) := by
  induction n with
  | zero => exact sound_pure []
  | succ n ih =>
    have hbody := hf.roundThen ih
    refine ⟨fun {data c} h => ?_, fun {data c a c'} h hok => ?_, fun {data c a c'} more h hok => ?_⟩
    · cases hc : c.ok with
      | false => exact ⟨[], c, whileOk_of_error hc, h⟩
      | true =>
        rw [whileOk_succ hc]
        apply hbody.good
        -- A round is entered without an error, so no overrun comes before it.
        have hnone : .overrun ∉ c.trace := by
          intro hmem
          rw [h.latched hmem] at hc
          cases hc
        refine ⟨h.inBounds, fun hmem => ?_, ?_⟩
        · obtain hmem | hmem := List.mem_append.mp hmem
          · exact absurd hmem hnone
          · cases List.mem_singleton.mp hmem
        · rw [List.pairwise_append]
          refine ⟨h.stops, List.pairwise_singleton _ _, fun a ha b _ hover => ?_⟩
          rw [hover] at ha
          exact absurd ha hnone
    · cases hc : c.ok with
      | false =>
        rw [whileOk_of_error hc] at h
        cases h
        rw [hc] at hok
        cases hok
      | true => rfl
    · cases hc : c.ok with
      | false =>
        rw [whileOk_of_error hc] at h ⊢
        exact h
      | true =>
        rw [whileOk_succ hc] at h ⊢
        exact hbody.extend more h hok

theorem reads_pure (a : α) : Reads (pure a : Reader β α) [] a := by
  intro before after c hpos hok
  refine ⟨c.trace, ?_⟩
  rw [List.length_nil, Nat.add_zero, ← hpos, ← hok]
  rfl

theorem reads_block {n : ℕ} {decode : List β → α} {default : α} {encoding : List β}
    (h : encoding.length = n) : Reads (block n decode default) encoding (decode encoding) := by
  intro before after c hpos hok
  refine ⟨c.trace, ?_⟩
  have hfits : c.pos + n ≤ (before ++ encoding ++ after).length := by
    rw [List.length_append, List.length_append]
    omega
  have hslice : ((before ++ encoding ++ after).drop c.pos).take n = encoding := by
    rw [hpos, List.append_assoc, List.drop_left, ← h, List.take_left]
  rw [block_of_fits hfits, hslice, hpos, h, hok]

theorem Reads.bind {f : Reader β α} {g : α → Reader β γ} {first second : List β} {a : α} {b : γ}
    (hf : Reads f first a) (hg : Reads (g a) second b) : Reads (f >>= g) (first ++ second) b := by
  intro before after c hpos hok
  obtain ⟨trace₁, h₁⟩ := hf before (second ++ after) c hpos hok
  obtain ⟨trace₂, h₂⟩ := hg (before ++ first) after ⟨before.length + first.length, true, trace₁⟩
    (by rw [List.length_append]) rfl
  refine ⟨trace₂, bind_eq_some.mpr ⟨a, ⟨before.length + first.length, true, trace₁⟩, ?_, ?_⟩⟩
  · rw [← h₁, List.append_assoc, List.append_assoc, List.append_assoc]
  · rw [← List.append_assoc before, h₂, List.length_append, List.length_append, Nat.add_assoc]

theorem Reads.bind_pure {f : Reader β α} {encoding : List β} {a : α} (hf : Reads f encoding a)
    (g : α → γ) : Reads (f >>= fun a => pure (g a)) encoding (g a) := by
  have h := hf.bind (g := fun a => pure (g a)) (reads_pure (g a))
  rw [List.append_nil] at h
  exact h

/-- What is read of an item may differ from the item. -/
theorem Reads.whileOk_map {f : Reader β α} {encode : γ → List β} {value : γ → α} {items : List γ}
    (hf : ∀ a ∈ items, Reads f (encode a) (value a)) :
    Reads (whileOk f items.length) (items.flatMap encode) (items.map value) := by
  induction items with
  | nil => exact reads_pure []
  | cons a items ih =>
    intro before after c hpos hok
    have hbody : Reads (roundThen f (Reader.whileOk f items.length))
        (encode a ++ items.flatMap encode) (value a :: items.map value) := by
      have hrest := ih fun b hb => hf b (List.mem_cons_of_mem a hb)
      exact (hf a List.mem_cons_self).bind (hrest.bind_pure fun as => value a :: as)
    rw [List.length_cons, whileOk_succ hok]
    exact hbody before after _ hpos hok

theorem Reads.whileOk {f : Reader β α} {encode : α → List β} {items : List α}
    (hf : ∀ a ∈ items, Reads f (encode a) a) :
    Reads (whileOk f items.length) (items.flatMap encode) items := by
  have hread : Reads (Reader.whileOk f items.length) (items.flatMap encode) (items.map id) :=
    Reads.whileOk_map hf
  rw [List.map_id] at hread
  exact hread

/-- The encoding is read as a prefix of the data. -/
theorem Reads.start_append {f : Reader β α} {encoding : List β} {a : α} (h : Reads f encoding a)
    (after : List β) :
    ∃ trace, f (encoding ++ after) .start = some (a, ⟨encoding.length, true, trace⟩) := by
  obtain ⟨trace, hread⟩ := h [] after .start rfl rfl
  rw [List.nil_append, List.length_nil, Nat.zero_add] at hread
  exact ⟨trace, hread⟩

/-- The encoding is read in full. -/
theorem Reads.start {f : Reader β α} {encoding : List β} {a : α} (h : Reads f encoding a) :
    ∃ trace, f encoding .start = some (a, ⟨encoding.length, true, trace⟩) := by
  obtain ⟨trace, hread⟩ := h.start_append []
  rw [List.append_nil] at hread
  exact ⟨trace, hread⟩

/-- A truncated encoding is an error. -/
theorem Reads.error_of_part {f : Reader β α} {encoding part : List β} {a b : α} {c : Cursor}
    (h : Reads f encoding a) (hsound : Sound f) (hpart : part <+: encoding)
    (hne : part ≠ encoding) (hread : f part .start = some (b, c)) : c.ok = false := by
  rw [Bool.eq_false_iff]
  intro hok
  obtain ⟨rest, rfl⟩ := hpart
  obtain ⟨trace, hfull⟩ := h.start
  have hsame := (hsound.extend rest hread hok).symm.trans hfull
  obtain ⟨b', c', hread', hgood⟩ := hsound.good (Cursor.good_start part)
  cases hread.symm.trans hread'
  cases hsame
  have hbound : (part ++ rest).length ≤ part.length := hgood.inBounds
  rw [List.length_append] at hbound
  have hnil : rest = [] := List.length_eq_zero_iff.mp (by omega)
  rw [hnil, List.append_nil] at hne
  exact hne rfl

end Reader

end Latched
