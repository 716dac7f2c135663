import Gempba.Telemetry.ControlLine
import Gempba.Telemetry.JsonSerializer
import Mathlib.Data.Bool.AllAny

/-!
# Escaped strings read back

The reader undoes the escapes of the writer. In a flat object its search for a
key passes over every other key and value, unless the key is itself the text
between two strings.
-/

namespace Gempba.Telemetry

set_option autoImplicit false

open Json (bytes QUOTE BACKSLASH COMMA COLON OPEN_BRACE CLOSE_BRACE)

/-! The search, from one quote to the next. -/

variable {name piece rest s t : Bytes}

theorem find_append_of_not_mem (h : QUOTE ∉ piece) :
    find (fieldPattern name) (piece ++ QUOTE :: rest) =
      find (fieldPattern name) (QUOTE :: rest) := by
  induction piece with
  | nil => rfl
  | cons c piece ih =>
    have hc : c ≠ QUOTE := fun he => h (he ▸ List.mem_cons_self)
    have hskip : ¬ fieldPattern name <+: c :: (piece ++ QUOTE :: rest) := by
      rintro ⟨u, hu⟩
      exact hc (List.cons.inj hu).1.symm
    rw [List.cons_append, find, if_neg hskip]
    exact ih fun hmem => h (List.mem_cons_of_mem c hmem)

theorem eq_of_append_quote {p q u v : Bytes} (hp : QUOTE ∉ p) (hq : QUOTE ∉ q)
    (h : p ++ QUOTE :: u = q ++ QUOTE :: v) : p = q ∧ u = v := by
  induction p generalizing q with
  | nil =>
    cases q with
    | nil => exact ⟨rfl, (List.cons.inj h).2⟩
    | cons c q => exact absurd ((List.cons.inj h).1 ▸ List.mem_cons_self) hq
  | cons c p ih =>
    cases q with
    | nil => exact absurd ((List.cons.inj h).1.symm ▸ List.mem_cons_self) hp
    | cons d q =>
      obtain ⟨hcd, htail⟩ := List.cons.inj h
      obtain ⟨hpq, huv⟩ := ih (fun hmem => hp (List.mem_cons_of_mem c hmem))
        (fun hmem => hq (List.mem_cons_of_mem d hmem)) htail
      exact ⟨by rw [hcd, hpq], huv⟩

theorem fieldPattern_append (name rest : Bytes) :
    fieldPattern name ++ rest = QUOTE :: (name ++ QUOTE :: COLON :: rest) := by
  show QUOTE :: (name ++ [QUOTE, COLON] ++ rest) = _
  rw [List.append_assoc]
  rfl

theorem fieldPattern_prefix_iff (hname : QUOTE ∉ name) (hpiece : QUOTE ∉ piece) :
    fieldPattern name <+: QUOTE :: (piece ++ QUOTE :: rest) ↔
      piece = name ∧ rest.head? = some COLON := by
  constructor
  · rintro ⟨u, hu⟩
    rw [fieldPattern_append] at hu
    obtain ⟨hp, hrest⟩ := eq_of_append_quote hname hpiece (List.cons.inj hu).2
    rw [← hrest]
    exact ⟨hp.symm, rfl⟩
  · rintro ⟨rfl, hcolon⟩
    obtain ⟨u, rfl⟩ := List.head?_eq_some_iff.mp hcolon
    exact ⟨u, fieldPattern_append ..⟩

/-- The search at a quote: what is between this quote and the next decides. -/
theorem find_quote (hname : QUOTE ∉ name) (hpiece : QUOTE ∉ piece)
    (h : ¬ (piece = name ∧ rest.head? = some COLON)) :
    find (fieldPattern name) (QUOTE :: (piece ++ QUOTE :: rest)) =
      find (fieldPattern name) (QUOTE :: rest) := by
  rw [find, if_neg fun hfound => h ((fieldPattern_prefix_iff hname hpiece).mp hfound)]
  exact find_append_of_not_mem hpiece

theorem find_quote_self (hname : QUOTE ∉ name) :
    find (fieldPattern name) (QUOTE :: (name ++ QUOTE :: COLON :: rest)) =
      some (fieldPattern name ++ rest) := by
  rw [find, if_pos ((fieldPattern_prefix_iff hname hname).mpr ⟨rfl, rfl⟩), fieldPattern_append]

/-! Escapes. -/

theorem hexDigit_ne_quote : ∀ n < 16, hexDigit n ≠ QUOTE := by decide

theorem hexValue_hexDigit : ∀ n < 16, hexValue (hexDigit n) = some n := by decide

/-- The cases of an escape: a quote, a backslash, a control byte, or the byte itself. -/
theorem escapeByte_cases (c : UInt8) :
    (c = QUOTE ∧ escapeByte c = [BACKSLASH, QUOTE]) ∨
      (∃ e, escapeByte c = [BACKSLASH, e] ∧ e ≠ QUOTE ∧ shortEscape e = some c) ∨
      (c < 0x20 ∧ escapeByte c =
        bytes "\\u00" ++ [hexDigit (c.toNat / 16), hexDigit (c.toNat % 16)]) ∨
      (c ≠ QUOTE ∧ c ≠ BACKSLASH ∧ ¬ c < 0x20 ∧ escapeByte c = [c]) := by
  rw [escapeByte]
  split
  · rename_i hc
    exact Or.inl ⟨hc, rfl⟩
  · rename_i hquote
    split
    · rename_i hc
      exact Or.inr (Or.inl ⟨BACKSLASH, rfl, by decide, by rw [hc]; rfl⟩)
    · rename_i hbackslash
      split
      · rename_i hc
        exact Or.inr (Or.inl ⟨0x6E, rfl, by decide, by rw [hc]; rfl⟩)
      · split
        · rename_i hc
          exact Or.inr (Or.inl ⟨0x72, rfl, by decide, by rw [hc]; rfl⟩)
        · split
          · rename_i hc
            exact Or.inr (Or.inl ⟨0x74, rfl, by decide, by rw [hc]; rfl⟩)
          · split
            · rename_i hcontrol
              exact Or.inr (Or.inr (Or.inl ⟨hcontrol, rfl⟩))
            · rename_i hcontrol
              exact Or.inr (Or.inr (Or.inr ⟨hquote, hbackslash, hcontrol, rfl⟩))

theorem codePoint_hexDigit {n : ℕ} (hn : n < 0x20) :
    codePoint (0x30 :: 0x30 :: hexDigit (n / 16) :: hexDigit (n % 16) :: s) = some (n, s) := by
  have hzero : hexValue 0x30 = some 0 := rfl
  have hhex : parseHex4 0x30 0x30 (hexDigit (n / 16)) (hexDigit (n % 16)) = some n := by
    rw [parseHex4, hzero, hexValue_hexDigit (n / 16) (by omega),
      hexValue_hexDigit (n % 16) (by omega)]
    simp only [Option.some.injEq]
    omega
  have hlow : isLow n = false := by
    simp only [isLow, Bool.and_eq_false_imp, decide_eq_true_eq, decide_eq_false_iff_not]
    omega
  have hhigh : isHigh n = false := by
    simp only [isHigh, Bool.and_eq_false_imp, decide_eq_true_eq, decide_eq_false_iff_not]
    omega
  rw [codePoint, hhex]
  simp only [hlow, hhigh, Bool.false_eq_true, if_false]

theorem stringStep_escapeByte (c : UInt8) (s : Bytes) :
    stringStep (escapeByte c ++ s) = .bytes [c] s := by
  rcases escapeByte_cases c with ⟨rfl, he⟩ | ⟨e, he, hne, hshort⟩ | ⟨hcontrol, he⟩ |
    ⟨hquote, hbackslash, hcontrol, he⟩
  · rw [he]
    rfl
  · rw [he]
    show escapeStep (e :: s) = _
    rw [escapeStep, hshort]
  · have hlt : c.toNat < 0x20 := UInt8.lt_iff_toNat_lt.mp hcontrol
    have hutf8 : appendUtf8 c.toNat = [c] := by
      rw [appendUtf8, if_pos (by omega), UInt8.ofNat_toNat]
    have hpoint := codePoint_hexDigit (s := s) hlt
    rw [he]
    show unicodeStep (0x30 :: 0x30 :: hexDigit (c.toNat / 16) :: hexDigit (c.toNat % 16) :: s) = _
    rw [unicodeStep, hpoint]
    exact congrArg (StringStep.bytes · s) hutf8
  · rw [he]
    show (if c = QUOTE then StringStep.close else _) = _
    rw [if_neg hquote, if_neg hbackslash]
    rfl

theorem escapeByte_ne_nil (c : UInt8) : 0 < (escapeByte c).length := by
  rcases escapeByte_cases c with ⟨rfl, he⟩ | ⟨e, he, _⟩ | ⟨_, he⟩ | ⟨_, _, _, he⟩ <;> rw [he]
  · exact Nat.succ_pos _
  · exact Nat.succ_pos _
  · exact Nat.succ_pos _
  · exact Nat.succ_pos _

/-- The reader's loop undoes the writer's. -/
theorem readString_flatMap (s rest : Bytes) {fuel : ℕ}
    (hfuel : (s.flatMap escapeByte ++ QUOTE :: rest).length < fuel) :
    readString fuel (s.flatMap escapeByte ++ QUOTE :: rest) = some s := by
  induction s generalizing fuel with
  | nil =>
    cases fuel with
    | zero => omega
    | succ fuel => rfl
  | cons c s ih =>
    rw [List.flatMap_cons, List.append_assoc] at hfuel ⊢
    have hlength := escapeByte_ne_nil c
    rw [List.length_append] at hfuel
    cases fuel with
    | zero => omega
    | succ fuel =>
      rw [readString, stringStep_escapeByte]
      simp only
      rw [ih (by omega)]
      rfl

theorem stringAt_escapeQuoted (s rest : Bytes) : stringAt (escapeQuoted s ++ rest) = some s := by
  have htext : escapeQuoted s ++ rest = QUOTE :: (s.flatMap escapeByte ++ QUOTE :: rest) := by
    show QUOTE :: (s.flatMap escapeByte ++ [QUOTE] ++ rest) = _
    rw [List.append_assoc]
    rfl
  rw [htext, stringAt, if_pos rfl]
  exact readString_flatMap s rest (Nat.lt_succ_self _)

theorem head?_escapeByte (c : UInt8) (s : Bytes) (h : (escapeByte c ++ s).head? = some COLON) :
    c = COLON := by
  obtain ⟨rfl, he⟩ | ⟨e, he, _⟩ | ⟨_, he⟩ | ⟨_, _, _, he⟩ := escapeByte_cases c
  · rw [he] at h
    cases h
  · rw [he] at h
    cases h
  · rw [he] at h
    cases h
  · rw [he] at h
    exact Option.some.inj h

/-- An escape ends the text between two quotes with a backslash, or goes on with it. -/
theorem escapeByte_pieces (c : UInt8) :
    escapeByte c = [BACKSLASH, QUOTE] ∨ QUOTE ∉ escapeByte c := by
  obtain ⟨rfl, he⟩ | ⟨e, he, hne, _⟩ | ⟨hcontrol, he⟩ | ⟨hquote, _, _, he⟩ := escapeByte_cases c
  · exact Or.inl he
  · right
    rw [he]
    intro hmem
    obtain hq | hmem := List.mem_cons.mp hmem
    · revert hq
      decide
    · exact hne (List.mem_singleton.mp hmem).symm
  · right
    rw [he]
    intro hmem
    have hlt : c.toNat < 0x20 := UInt8.lt_iff_toNat_lt.mp hcontrol
    obtain hmem | hmem := List.mem_append.mp hmem
    · revert hmem
      decide
    · obtain hq | hmem := List.mem_cons.mp hmem
      · exact hexDigit_ne_quote _ (by omega) hq.symm
      · exact hexDigit_ne_quote _ (by omega) (List.mem_singleton.mp hmem).symm
  · right
    rw [he]
    intro hmem
    exact hquote (List.mem_singleton.mp hmem).symm

/-- The search passes over an escaped value that no colon follows. -/
theorem find_escaped (hname : QUOTE ∉ name) (hbackslash : BACKSLASH ∉ name)
    (hpiece : QUOTE ∉ piece) (hrest : rest.head? ≠ some COLON) :
    find (fieldPattern name) (QUOTE :: (piece ++ (s.flatMap escapeByte ++ QUOTE :: rest))) =
      find (fieldPattern name) (QUOTE :: rest) := by
  induction s generalizing piece with
  | nil => exact find_quote hname hpiece fun h => hrest h.2
  | cons c s ih =>
    rw [List.flatMap_cons, List.append_assoc]
    obtain he | hmem := escapeByte_pieces c
    · have hquote : QUOTE ∉ piece ++ [BACKSLASH] := by
        intro hmem
        obtain hmem | hmem := List.mem_append.mp hmem
        · exact hpiece hmem
        · revert hmem
          decide
      have hne : piece ++ [BACKSLASH] ≠ name := by
        rintro rfl
        exact hbackslash (List.mem_append_right _ List.mem_cons_self)
      have htext : piece ++ (escapeByte c ++ (s.flatMap escapeByte ++ QUOTE :: rest)) =
          piece ++ [BACKSLASH] ++ QUOTE :: (s.flatMap escapeByte ++ QUOTE :: rest) := by
        rw [he, List.append_assoc]
        rfl
      rw [htext, find_quote hname hquote fun h => hne h.1]
      exact ih List.not_mem_nil
    · rw [← List.append_assoc]
      apply ih
      intro h
      obtain h | h := List.mem_append.mp h
      · exact hpiece h
      · exact hmem h

/-! Flat objects. -/

/-- A string, or the text of another value. -/
inductive FlatValue where
  | string (s : Bytes)
  | scalar (token : Bytes)
  deriving DecidableEq

def FlatValue.text : FlatValue → Bytes
  | .string s => escapeQuoted s
  | .scalar token => token

/-- A member with the spaces around its key and value. -/
structure FlatMember where
  before : Bytes
  key : Bytes
  after : Bytes
  value : FlatValue
  trailing : Bytes
  deriving DecidableEq

namespace FlatMember

/-- The member from after the colon on. -/
def tail (m : FlatMember) : Bytes := m.after ++ m.value.text ++ m.trailing

structure WellFormed (m : FlatMember) : Prop where
  before : ∀ c ∈ m.before, Json.IsSpace c
  after : ∀ c ∈ m.after, Json.IsSpace c
  trailing : ∀ c ∈ m.trailing, Json.IsSpace c
  key : QUOTE ∉ m.key ∧ BACKSLASH ∉ m.key
  scalar : ∀ token, m.value = .scalar token → QUOTE ∉ token

end FlatMember

/-- The members that follow another one, up to the closing brace. -/
def followingText : List FlatMember → Bytes
  | [] => [CLOSE_BRACE]
  | m :: ms =>
    COMMA :: (m.before ++ QUOTE :: (m.key ++ QUOTE :: COLON :: (m.tail ++ followingText ms)))

def objectText : List FlatMember → Bytes
  | [] => [OPEN_BRACE, CLOSE_BRACE]
  | m :: ms =>
    OPEN_BRACE :: (m.before ++ QUOTE :: (m.key ++ QUOTE :: COLON :: (m.tail ++ followingText ms)))

/-- The neighbouring strings of an object up to the key with the name: the text between the two,
and the second one. -/
def neighbours (name : Bytes) : List FlatMember → List (Bytes × Bytes)
  | [] => []
  | m :: ms =>
    if m.key = name then []
    else
      match m.value with
      | .string s => (COLON :: m.after, s) :: following m.trailing ms ++ neighbours name ms
      | .scalar token =>
        following (COLON :: m.after ++ token ++ m.trailing) ms ++ neighbours name ms
where
  following (gap : Bytes) : List FlatMember → List (Bytes × Bytes)
    | [] => []
    | m :: _ => [(gap ++ COMMA :: m.before, m.key)]

/-- The name is the text between two strings before it, and a colon follows. -/
def Misleading (ms : List FlatMember) (name : Bytes) : Prop :=
  ∃ gap ∈ neighbours name ms, gap.1 = name ∧ gap.2.head? = some COLON

theorem head?_of_append_quote {k u : Bytes} (h : (k ++ QUOTE :: u).head? = some COLON) :
    k.head? = some COLON := by
  cases k with
  | nil => cases h
  | cons c k => exact h

theorem head?_of_escaped {u : Bytes} (h : (s.flatMap escapeByte ++ QUOTE :: u).head? = some COLON) :
    s.head? = some COLON := by
  cases s with
  | nil => cases h
  | cons c s =>
    rw [List.flatMap_cons, List.append_assoc] at h
    rw [head?_escapeByte c _ h]
    rfl

theorem quote_not_mem_of_spaces {p : Bytes} (h : ∀ c ∈ p, Json.IsSpace c) : QUOTE ∉ p := by
  intro hmem
  have hspace := h QUOTE hmem
  revert hspace
  decide

theorem quote_not_mem_append {p q : Bytes} (hp : QUOTE ∉ p) (hq : QUOTE ∉ q) : QUOTE ∉ p ++ q := by
  intro hmem
  obtain hmem | hmem := List.mem_append.mp hmem
  · exact hp hmem
  · exact hq hmem

theorem quote_not_mem_cons {c : UInt8} {p : Bytes} (hc : c ≠ QUOTE) (hp : QUOTE ∉ p) :
    QUOTE ∉ c :: p := by
  intro hmem
  obtain hmem | hmem := List.mem_cons.mp hmem
  · exact hc hmem.symm
  · exact hp hmem

theorem head?_spaces_ne {p u : Bytes} (h : ∀ c ∈ p, Json.IsSpace c) :
    (p ++ COMMA :: u).head? ≠ some COLON := by
  cases p with
  | nil =>
    intro hc
    cases hc
  | cons c p =>
    intro hc
    have hspace := h c List.mem_cons_self
    rw [Option.some.inj hc] at hspace
    revert hspace
    decide

/-- A member from the quote before its key on, with the members that follow. -/
def fromKey (m : FlatMember) (ms : List FlatMember) : Bytes :=
  QUOTE :: (m.key ++ QUOTE :: COLON :: (m.tail ++ followingText ms))

/-- The search passes over the text from a string of one member to the key of the next. -/
theorem find_gap {gap : Bytes} {m : FlatMember} {ms : List FlatMember} (hname : QUOTE ∉ name)
    (hgap : QUOTE ∉ gap) (hm : m.WellFormed)
    (h : ¬ (gap ++ COMMA :: m.before = name ∧ m.key.head? = some COLON)) :
    find (fieldPattern name) (QUOTE :: (gap ++ followingText (m :: ms))) =
      find (fieldPattern name) (fromKey m ms) := by
  have hcomma : COMMA ≠ QUOTE := by decide
  have hpiece : QUOTE ∉ gap ++ COMMA :: m.before :=
    quote_not_mem_append hgap (quote_not_mem_cons hcomma (quote_not_mem_of_spaces hm.before))
  have htext : gap ++ followingText (m :: ms) = gap ++ COMMA :: m.before ++ fromKey m ms := by
    rw [List.append_assoc]
    rfl
  rw [htext]
  apply find_quote hname hpiece
  rintro ⟨hname', hcolon⟩
  exact h ⟨hname', head?_of_append_quote hcolon⟩

theorem find_next {m m' : FlatMember} {ms : List FlatMember} (hname : QUOTE ∉ name)
    (hbackslash : BACKSLASH ∉ name) (hm : m.WellFormed) (hm' : m'.WellFormed)
    (hne : m.key ≠ name) (h : ¬ Misleading (m :: m' :: ms) name) :
    find (fieldPattern name) (fromKey m (m' :: ms)) =
      find (fieldPattern name) (fromKey m' ms) := by
  have hcolon : COLON ≠ QUOTE := by decide
  rw [fromKey, find_quote hname hm.key.1 fun hkey => hne hkey.1, FlatMember.tail]
  cases hvalue : m.value with
  | string v =>
    have hneighbours : neighbours name (m :: m' :: ms) = (COLON :: m.after, v) ::
        ((m.trailing ++ COMMA :: m'.before, m'.key) :: neighbours name (m' :: ms)) := by
      rw [neighbours, if_neg hne, hvalue]
      rfl
    have hvaluegap : ¬ (COLON :: m.after = name ∧ v.head? = some COLON) := by
      intro hgap
      apply h
      rw [Misleading, hneighbours]
      exact ⟨_, List.mem_cons_self, hgap⟩
    have hkeygap : ¬ (m.trailing ++ COMMA :: m'.before = name ∧ m'.key.head? = some COLON) := by
      intro hgap
      apply h
      rw [Misleading, hneighbours]
      exact ⟨_, List.mem_cons_of_mem _ List.mem_cons_self, hgap⟩
    have hafter : QUOTE ∉ COLON :: m.after :=
      quote_not_mem_cons hcolon (quote_not_mem_of_spaces hm.after)
    have htext : COLON :: (m.after ++ (FlatValue.string v).text ++ m.trailing ++
        followingText (m' :: ms)) = COLON :: m.after ++ QUOTE :: (v.flatMap escapeByte ++
          QUOTE :: (m.trailing ++ followingText (m' :: ms))) := by
      rw [FlatValue.text, escapeQuoted]
      simp only [List.cons_append, List.append_assoc, List.nil_append]
    rw [htext, find_quote hname hafter fun hgap => hvaluegap ⟨hgap.1, head?_of_escaped hgap.2⟩]
    have hescaped := find_escaped (s := v) hname hbackslash (List.not_mem_nil (a := QUOTE))
      (head?_spaces_ne (u := m'.before ++ fromKey m' ms) hm.trailing)
    rw [List.nil_append] at hescaped
    apply Eq.trans hescaped
    exact find_gap hname (quote_not_mem_of_spaces hm.trailing) hm' hkeygap
  | scalar token =>
    have hneighbours : neighbours name (m :: m' :: ms) =
        (COLON :: m.after ++ token ++ m.trailing ++ COMMA :: m'.before, m'.key) ::
          neighbours name (m' :: ms) := by
      rw [neighbours, if_neg hne, hvalue]
      rfl
    have hkeygap : ¬ (COLON :: m.after ++ token ++ m.trailing ++ COMMA :: m'.before = name ∧
        m'.key.head? = some COLON) := by
      intro hgap
      apply h
      rw [Misleading, hneighbours]
      exact ⟨_, List.mem_cons_self, hgap⟩
    have hgap : QUOTE ∉ COLON :: m.after ++ token ++ m.trailing := by
      apply quote_not_mem_append
      · apply quote_not_mem_append
        · exact quote_not_mem_cons hcolon (quote_not_mem_of_spaces hm.after)
        · exact hm.scalar token hvalue
      · exact quote_not_mem_of_spaces hm.trailing
    exact find_gap hname hgap hm' hkeygap

theorem Misleading.tail {m : FlatMember} {ms : List FlatMember} (hne : m.key ≠ name)
    (h : Misleading ms name) : Misleading (m :: ms) name := by
  obtain ⟨gap, hgap, hname⟩ := h
  refine ⟨gap, ?_, hname⟩
  rw [neighbours, if_neg hne]
  split
  · exact List.mem_cons_of_mem _ (List.mem_append_right _ hgap)
  · exact List.mem_append_right _ hgap

theorem find_fromKey {m target : FlatMember} {ms : List FlatMember}
    (hwell : ∀ m' ∈ m :: ms, m'.WellFormed)
    (hkeys : ((m :: ms).map FlatMember.key).Nodup) (htarget : target ∈ m :: ms)
    (h : ¬ Misleading (m :: ms) target.key) :
    ∃ rest, find (fieldPattern target.key) (fromKey m ms) =
      some (fieldPattern target.key ++ (target.tail ++ rest)) := by
  obtain ⟨hquote, hbackslash⟩ := (hwell target htarget).key
  induction ms generalizing m with
  | nil =>
    rw [List.mem_singleton.mp htarget] at hquote ⊢
    exact ⟨_, find_quote_self hquote⟩
  | cons m' ms ih =>
    obtain rfl | hmem := List.mem_cons.mp htarget
    · exact ⟨_, find_quote_self hquote⟩
    · have hne : m.key ≠ target.key := by
        intro he
        apply (List.nodup_cons.mp hkeys).1
        rw [he]
        exact List.mem_map_of_mem hmem
      rw [find_next hquote hbackslash (hwell m List.mem_cons_self)
        (hwell m' (List.mem_cons_of_mem _ List.mem_cons_self)) hne h]
      apply ih
      · intro m'' hm''
        exact hwell m'' (List.mem_cons_of_mem _ hm'')
      · exact (List.nodup_cons.mp hkeys).2
      · exact hmem
      · exact fun hmisleading => h (hmisleading.tail hne)

theorem find_objectText {m : FlatMember} {ms : List FlatMember} (hm : m.WellFormed) :
    find (fieldPattern name) (objectText (m :: ms)) =
      find (fieldPattern name) (fromKey m ms) := by
  have hbrace : OPEN_BRACE ≠ QUOTE := by decide
  have hpiece : QUOTE ∉ OPEN_BRACE :: m.before :=
    quote_not_mem_cons hbrace (quote_not_mem_of_spaces hm.before)
  have htext : objectText (m :: ms) = OPEN_BRACE :: m.before ++ fromKey m ms := rfl
  rw [htext]
  exact find_append_of_not_mem hpiece

theorem isspace_of_isSpace {c : UInt8} (h : Json.IsSpace c) : isspace c = true := by
  obtain rfl | h := List.mem_cons.mp h
  · rfl
  obtain rfl | h := List.mem_cons.mp h
  · rfl
  obtain rfl | h := List.mem_cons.mp h
  · rfl
  rw [List.mem_singleton.mp h]
  rfl

theorem dropWhile_isspace {p u : Bytes} {c : UInt8} (h : ∀ d ∈ p, Json.IsSpace d)
    (hc : isspace c = false) : (p ++ c :: u).dropWhile isspace = c :: u := by
  induction p with
  | nil =>
    rw [List.nil_append, List.dropWhile_cons_of_neg]
    rw [hc]
    exact Bool.false_ne_true
  | cons d p ih =>
    rw [List.cons_append, List.dropWhile_cons_of_pos (isspace_of_isSpace (h d List.mem_cons_self))]
    exact ih fun e he => h e (List.mem_cons_of_mem d he)

/-- A string of a flat object is read back under its key, unless the key is the text between two
neighbouring strings before it of which the second starts with a colon. -/
theorem findStringField_objectText {ms : List FlatMember} {target : FlatMember}
    (hwell : ∀ m ∈ ms, m.WellFormed) (hkeys : (ms.map FlatMember.key).Nodup)
    (htarget : target ∈ ms) (hvalue : target.value = .string s)
    (h : ¬ Misleading ms target.key) :
    findStringField (objectText ms) target.key = some s := by
  cases ms with
  | nil => cases htarget
  | cons m ms =>
    obtain ⟨rest, hfind⟩ := find_fromKey hwell hkeys htarget h
    have htail : target.tail ++ rest = target.after ++
        QUOTE :: (s.flatMap escapeByte ++ [QUOTE] ++ (target.trailing ++ rest)) := by
      rw [FlatMember.tail, hvalue, FlatValue.text, escapeQuoted]
      simp only [List.cons_append, List.append_assoc]
    rw [findStringField, findFieldValue, find_objectText (hwell m List.mem_cons_self), hfind,
      Option.map_some, Option.bind_some, List.drop_left, htail,
      dropWhile_isspace (hwell target htarget).after rfl]
    exact stringAt_escapeQuoted s _

theorem wellFormed_string {before after : Bytes} (key s : Bytes)
    (hbefore : before.all fun c => Json.IsSpace c) (hafter : after.all fun c => Json.IsSpace c)
    (hkey : QUOTE ∉ key ∧ BACKSLASH ∉ key) :
    (⟨before, key, after, .string s, []⟩ : FlatMember).WellFormed where
  before := List.all_iff_forall_prop.mp hbefore
  after := List.all_iff_forall_prop.mp hafter
  trailing c hc := absurd hc List.not_mem_nil
  key := hkey
  scalar token h := by cases h

/-- Two members with awkward keys and values. -/
def awkwardMembers : List FlatMember :=
  [⟨[], bytes "label", [0x20], .string (bytes "a \"kind\":\n"), []⟩,
    ⟨[0x20], bytes "kind", [], .string [0x00, 0xFF, 0x5C], []⟩]

theorem awkwardMembers_wellFormed : ∀ m ∈ awkwardMembers, m.WellFormed := by
  intro m hm
  obtain rfl | hm := List.mem_cons.mp hm
  · exact wellFormed_string _ _ (by decide) (by decide) (by decide)
  · rw [List.mem_singleton.mp hm]
    exact wellFormed_string _ _ (by decide) (by decide) (by decide)

theorem findStringField_objectText_awkward :
    findStringField (objectText awkwardMembers) (bytes "kind") = some [0x00, 0xFF, 0x5C] := by
  have htarget : (⟨[0x20], bytes "kind", [], .string [0x00, 0xFF, 0x5C], []⟩ : FlatMember) ∈
      awkwardMembers := List.mem_cons_of_mem _ List.mem_cons_self
  have hmisleading : ¬ Misleading awkwardMembers (bytes "kind") := by
    rintro ⟨gap, hgap, hname, _⟩
    have hnames : ∀ gap ∈ neighbours (bytes "kind") awkwardMembers, gap.1 ≠ bytes "kind" := by
      decide
    exact hnames gap hgap hname
  exact findStringField_objectText awkwardMembers_wellFormed (by decide) htarget rfl hmisleading

/-- A key that is a colon is found between another key and its value. -/
def colonMembers : List FlatMember :=
  [⟨[], bytes "a", [], .string (bytes ":"), []⟩, ⟨[], bytes ":", [], .string (bytes "b"), []⟩]

theorem colonMembers_wellFormed : ∀ m ∈ colonMembers, m.WellFormed := by
  intro m hm
  obtain rfl | hm := List.mem_cons.mp hm
  · exact wellFormed_string _ _ (by decide) (by decide) (by decide)
  · rw [List.mem_singleton.mp hm]
    exact wellFormed_string _ _ (by decide) (by decide) (by decide)

theorem findStringField_misled : ¬ ∀ (ms : List FlatMember) (target : FlatMember) (s : Bytes),
    (∀ m ∈ ms, m.WellFormed) → (ms.map FlatMember.key).Nodup → target ∈ ms →
    target.value = .string s → findStringField (objectText ms) target.key = some s := by
  intro hall
  have htarget : (⟨[], bytes ":", [], .string (bytes "b"), []⟩ : FlatMember) ∈ colonMembers :=
    List.mem_cons_of_mem _ List.mem_cons_self
  have hfound := hall colonMembers _ _ colonMembers_wellFormed (by decide) htarget rfl
  revert hfound
  decide

end Gempba.Telemetry
