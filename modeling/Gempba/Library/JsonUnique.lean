import Gempba.Library.JsonValues

/-!
# A text is one object

Where a byte follows that no number goes on with, the grammar cuts a text in
one way only, so that the members of an object are determined by its text.
-/

namespace Json

set_option autoImplicit false

variable {s t u : List UInt8}

/-- What may follow an entry. -/
def ENDINGS : List UInt8 := [COMMA, CLOSE_BRACE, CLOSE_BRACKET]

/-- No number goes on with the text. -/
def Ends (s : List UInt8) : Prop := ∀ c ∈ s.head?, ∀ m : NumberMode, m.next c = none

/-! Spaces. -/

theorem not_isSpace_ending {c : UInt8} (hc : c ∈ ENDINGS) : ¬ IsSpace c := by
  simp only [ENDINGS, List.mem_cons, List.not_mem_nil, or_false] at hc
  rcases hc with rfl | rfl | rfl <;> decide

theorem spaces_unique {t' : List UInt8} (h : Spaces s t) (h' : Spaces s t')
    (ht : ∀ c ∈ t.head?, ¬ IsSpace c) (ht' : ∀ c ∈ t'.head?, ¬ IsSpace c) : t = t' := by
  induction h with
  | nil s =>
    cases h' with
    | nil => rfl
    | cons hc _ => exact absurd hc (ht _ rfl)
  | cons hc _ ih =>
    cases h' with
    | nil => exact absurd hc (ht' _ rfl)
    | cons _ h' => exact ih h' ht

theorem spaces_cons_unique {c c' : UInt8} {t' : List UInt8} (h : Spaces s (c :: t))
    (h' : Spaces s (c' :: t')) (hc : ¬ IsSpace c) (hc' : ¬ IsSpace c') : c = c' ∧ t = t' := by
  refine List.cons.inj (spaces_unique h h' ?_ ?_)
  · intro d hd
    rw [← Option.some.inj hd]
    exact hc
  · intro d hd
    rw [← Option.some.inj hd]
    exact hc'

theorem head_of_value (h : Value s t) : ∀ c ∈ s.head?, ¬ IsSpace c := by
  cases s with
  | nil => exact fun c hc => absurd hc (Option.not_mem_none c)
  | cons c s =>
    intro d hd
    rw [← Option.some.inj hd]
    exact not_isSpace_of_value h

theorem ends_of_spaces {c : UInt8} (hc : c ∈ ENDINGS) (h : Spaces s (c :: t)) : Ends s := by
  have hall : ∀ c ∈ [0x20, 0x09, 0x0A, 0x0D] ++ ENDINGS,
      ∀ m ∈ [NumberMode.minus, .zero, .integer, .point, .fraction, .mark, .sign, .exponent],
        m.next c = none := List.all_iff_forall_prop.mp (by decide)
  have hmode : ∀ m : NumberMode,
      m ∈ [NumberMode.minus, .zero, .integer, .point, .fraction, .mark, .sign, .exponent] := by
    intro m
    cases m <;> decide
  intro d hd m
  refine hall d ?_ m (hmode m)
  cases h with
  | nil =>
    rw [← Option.some.inj hd]
    exact List.mem_append_right _ hc
  | cons hspace _ =>
    rw [← Option.some.inj hd]
    exact List.mem_append_left _ hspace

/-- Where a container is closed at once, it has no entries. -/
theorem not_entries_of_closed {k : Container} (h : Spaces s (k.closing :: t)) :
    ¬ Entries k s u := by
  rw [entries_iff]
  rintro ⟨v, hentry, _⟩
  generalize hclosed : k.closing :: t = closed at h
  induction h with
  | nil s =>
    rw [← hclosed] at hentry
    exact not_entryPhrase_closing hentry
  | cons hc _ ih => exact ih ((entryPhrase_space hc).mp hentry) hclosed

/-! Values that are no containers. -/

theorem numberPhrase_unique {m : NumberMode} {t' : List UInt8} (h : NumberPhrase m s t)
    (h' : NumberPhrase m s t') (ht : Ends t) (ht' : Ends t') : t = t' := by
  induction s generalizing m with
  | nil => rw [numberPhrase_nil h, numberPhrase_nil h']
  | cons c s ih =>
    obtain ⟨m', hnext, h⟩ | ⟨_, rfl⟩ := numberPhrase_cons h
    · obtain ⟨m'', hnext', h'⟩ | ⟨_, rfl⟩ := numberPhrase_cons h'
      · cases hnext.symm.trans hnext'
        exact ih h h'
      · cases hnext.symm.trans (ht' c rfl m)
    · obtain ⟨m'', hnext', _⟩ | ⟨_, rfl⟩ := numberPhrase_cons h'
      · cases hnext'.symm.trans (ht c rfl m)
      · rfl

theorem startMode_cases {c : UInt8} {m : Mode} (h : startMode c = some m) :
    m = .string false ∨ (∃ n, m = .number n) ∨ ∃ rest, m = .word rest := by
  rw [startMode] at h
  repeat' split at h
  · exact Or.inl (Option.some.inj h).symm
  · exact Or.inr (Or.inl ⟨_, (Option.some.inj h).symm⟩)
  · exact Or.inr (Or.inl ⟨_, (Option.some.inj h).symm⟩)
  · exact Or.inr (Or.inl ⟨_, (Option.some.inj h).symm⟩)
  · exact Or.inr (Or.inr ⟨_, (Option.some.inj h).symm⟩)
  · exact Or.inr (Or.inr ⟨_, (Option.some.inj h).symm⟩)
  · exact Or.inr (Or.inr ⟨_, (Option.some.inj h).symm⟩)
  · cases h

theorem phrase_unique {c : UInt8} {m : Mode} {t' : List UInt8} (hm : startMode c = some m)
    (h : Phrase m .array s t) (h' : Phrase m .array s t') (ht : Ends t) (ht' : Ends t') :
    t = t' := by
  obtain rfl | ⟨n, rfl⟩ | ⟨rest, rfl⟩ := startMode_cases hm
  · obtain ⟨u, h, rfl⟩ := h
    obtain ⟨u', h', rfl⟩ := h'
    exact chars_unique h h'
  · exact numberPhrase_unique h h' ht ht'
  · have hs : s = rest ++ t := h
    have hs' : s = rest ++ t' := h'
    exact List.append_cancel_left (hs.symm.trans hs')

/-- A value that is no container ends where any reading of it ends. -/
theorem leaf_unique {c : UInt8} {m : Mode} {t' : List UInt8} (hm : startMode c = some m)
    (h : Phrase m .array s t) (h' : Value (c :: s) t') (ht : Ends t) (ht' : Ends t') : t = t' := by
  obtain ⟨rfl, _⟩ | ⟨rfl, _⟩ | ⟨m', hm', h'⟩ := value_cons (k := .array) h'
  · cases hm
  · cases hm
  · cases hm.symm.trans hm'
    exact phrase_unique hm h h' ht ht'

theorem opened_of_value {k : Container} (h : Value (k.opening :: s) t) : Opened k s t := by
  obtain ⟨hk, hs⟩ | ⟨hk, hs⟩ | ⟨m, hm, _⟩ := value_cons (k := .array) h
  · cases k with
    | object => exact hs
    | array => cases hk
  · cases k with
    | object => cases hk
    | array => exact hs
  · cases k with
    | object => cases hm
    | array => cases hm

/-! The readings of a text. -/

def UniqueValue (s t : List UInt8) : Prop := ∀ t', Value s t' → Ends t → Ends t' → t = t'

def UniqueElements (s t : List UInt8) : Prop :=
  ∀ u u', t = CLOSE_BRACKET :: u → Elements s (CLOSE_BRACKET :: u') → u = u'

def UniqueElement (s t : List UInt8) : Prop :=
  ∀ c u c' u', c ∈ ENDINGS → c' ∈ ENDINGS → t = c :: u → Element s (c' :: u') → c = c' ∧ u = u'

def UniqueMembers (s : List UInt8) (ms : List Member) (t : List UInt8) : Prop :=
  ∀ u ms' u', t = CLOSE_BRACE :: u → Members s ms' (CLOSE_BRACE :: u') → ms = ms' ∧ u = u'

def UniqueMember (s : List UInt8) (m : Member) (t : List UInt8) : Prop :=
  ∀ c u m' c' u', c ∈ ENDINGS → c' ∈ ENDINGS → t = c :: u → IsMember s m' (c' :: u') →
    m = m' ∧ c = c' ∧ u = u'

theorem uniqueValue_leaf {c : UInt8} (h : Value (c :: s) t) (hc : startMode c ≠ none) :
    UniqueValue (c :: s) t := by
  intro t' h' ht ht'
  obtain ⟨rfl, _⟩ | ⟨rfl, _⟩ | ⟨m, hm, h⟩ := value_cons (k := .array) h
  · exact absurd rfl hc
  · exact absurd rfl hc
  · exact leaf_unique hm h h' ht ht'

theorem uniqueValue_number (h : Number s t) : UniqueValue s t := by
  cases s with
  | nil => exact absurd ⟨[], .nil [], .number h⟩ valuePhrase_nil
  | cons c s =>
    refine uniqueValue_leaf (.number h) ?_
    cases h with
    | positive h =>
      obtain ⟨rfl, _⟩ | ⟨hc, hzero, _⟩ := unsigned_cons_iff.mp h
      · decide
      · rw [startMode_digit hc hzero]
        exact Option.some_ne_none _
    | negative => decide

theorem uniqueValue_empty {k : Container} (h : Spaces s (k.closing :: t)) :
    UniqueValue (k.opening :: s) t := by
  intro t' h' _ _
  obtain h' | h' := opened_of_value h'
  · exact (spaces_cons_unique h h' (not_isSpace_closing k) (not_isSpace_closing k)).2
  · exact absurd h' (not_entries_of_closed h)

theorem uniqueValue_array (h : Elements s (CLOSE_BRACKET :: t))
    (ih : UniqueElements s (CLOSE_BRACKET :: t)) : UniqueValue (OPEN_BRACKET :: s) t := by
  intro t' h' _ _
  obtain h' | h' := opened_of_value (k := .array) h'
  · exact absurd h (not_entries_of_closed (k := .array) h')
  · exact ih t t' rfl h'

theorem uniqueValue_object {ms : List Member} (h : Members s ms (CLOSE_BRACE :: t))
    (ih : UniqueMembers s ms (CLOSE_BRACE :: t)) : UniqueValue (OPEN_BRACE :: s) t := by
  intro t' h' _ _
  obtain h' | ⟨ms', h'⟩ := opened_of_value (k := .object) h'
  · exact absurd ⟨ms, h⟩ (not_entries_of_closed (k := .object) h')
  · exact (ih t ms' t' rfl h').2

theorem bracket_mem : CLOSE_BRACKET ∈ ENDINGS := by decide

theorem brace_mem : CLOSE_BRACE ∈ ENDINGS := by decide

theorem comma_mem : COMMA ∈ ENDINGS := by decide

theorem uniqueElements_one (ih : UniqueElement s t) : UniqueElements s t := by
  intro u u' ht h'
  cases h' with
  | one h' => exact (ih _ u _ u' bracket_mem bracket_mem ht h').2
  | cons h' _ =>
    have hcomma := (ih _ u _ _ bracket_mem comma_mem ht h').1
    exact absurd hcomma (by decide)

theorem uniqueElements_cons (ih : UniqueElement s (COMMA :: t)) (ihs : UniqueElements t u) :
    UniqueElements s u := by
  intro v v' hu h'
  cases h' with
  | one h' =>
    have hcomma := (ih _ t _ v' comma_mem bracket_mem rfl h').1
    exact absurd hcomma (by decide)
  | cons h' hs' =>
    obtain ⟨_, rfl⟩ := ih _ t _ _ comma_mem comma_mem rfl h'
    exact ihs v v' hu hs'

theorem uniqueElement_mk {v : List UInt8} (hbefore : Spaces s t) (h : Value t u)
    (hafter : Spaces u v) (ih : UniqueValue t u) : UniqueElement s v := by
  intro c w c' w' hc hc' hv h'
  rw [hv] at hafter
  cases h' with
  | mk hbefore' h' hafter' =>
    cases spaces_unique hbefore hbefore' (head_of_value h) (head_of_value h')
    cases ih _ h' (ends_of_spaces hc hafter) (ends_of_spaces hc' hafter')
    exact spaces_cons_unique hafter hafter' (not_isSpace_ending hc) (not_isSpace_ending hc')

theorem uniqueMembers_one {m : Member} (ih : UniqueMember s m t) : UniqueMembers s [m] t := by
  intro u ms' u' ht h'
  cases h' with
  | one h' =>
    obtain ⟨rfl, _, hu⟩ := ih _ u _ _ u' brace_mem brace_mem ht h'
    exact ⟨rfl, hu⟩
  | cons h' _ =>
    have hcomma := (ih _ u _ _ _ brace_mem comma_mem ht h').2.1
    exact absurd hcomma (by decide)

theorem uniqueMembers_cons {m : Member} {ms : List Member} (ih : UniqueMember s m (COMMA :: t))
    (ihs : UniqueMembers t ms u) : UniqueMembers s (m :: ms) u := by
  intro v ms' v' hu h'
  cases h' with
  | one h' =>
    have hcomma := (ih _ t _ _ v' comma_mem brace_mem rfl h').2.1
    exact absurd hcomma (by decide)
  | cons h' hs' =>
    obtain ⟨rfl, _, rfl⟩ := ih _ t _ _ _ comma_mem comma_mem rfl h'
    obtain ⟨rfl, hv⟩ := ihs v _ v' hu hs'
    exact ⟨rfl, hv⟩

theorem uniqueMember_mk {key keyEnd colon value rest : List UInt8}
    (hbefore : Spaces s (QUOTE :: key)) (hkey : Chars key keyEnd)
    (hcolon : Spaces keyEnd (COLON :: colon)) (hvalue : Spaces colon value)
    (h : Value value rest) (hafter : Spaces rest t) (ih : UniqueValue value rest) :
    UniqueMember s ⟨key, keyEnd, value, rest⟩ t := by
  have hquote : ¬ IsSpace QUOTE := by decide
  have hcolon' : ¬ IsSpace COLON := by decide
  intro c w m' c' w' hc hc' ht h'
  rw [ht] at hafter
  cases h' with
  | mk hbefore₂ hkey₂ hcolon₂ hvalue₂ h₂ hafter₂ =>
    obtain ⟨_, rfl⟩ := spaces_cons_unique hbefore hbefore₂ hquote hquote
    cases chars_unique hkey hkey₂
    obtain ⟨_, rfl⟩ := spaces_cons_unique hcolon hcolon₂ hcolon' hcolon'
    cases spaces_unique hvalue hvalue₂ (head_of_value h) (head_of_value h₂)
    cases ih _ h₂ (ends_of_spaces hc hafter) (ends_of_spaces hc' hafter₂)
    exact ⟨rfl, spaces_cons_unique hafter hafter₂ (not_isSpace_ending hc)
      (not_isSpace_ending hc')⟩

/-- The induction is on the derivation, with one case for each rule of the grammar. -/
theorem members_unique {ms : List Member} (h : Members s ms t) : UniqueMembers s ms t := by
  refine @Members.rec (fun s t _ => UniqueValue s t) (fun s t _ => UniqueElements s t)
    (fun s t _ => UniqueElement s t) (fun s ms t _ => UniqueMembers s ms t)
    (fun s m t _ => UniqueMember s m t) ?null ?true ?false ?number ?string ?emptyArray ?array
    ?emptyObject ?object ?oneElement ?elements ?element ?oneMember ?members ?member s ms t h
  case null => exact fun s => uniqueValue_leaf (.null s) (by decide)
  case true => exact fun s => uniqueValue_leaf (.true s) (by decide)
  case false => exact fun s => uniqueValue_leaf (.false s) (by decide)
  case number => exact uniqueValue_number
  case string =>
    intro s t h
    exact uniqueValue_leaf (.string h) (by decide)
  case emptyArray => exact uniqueValue_empty (k := .array)
  case array => exact uniqueValue_array
  case emptyObject => exact uniqueValue_empty (k := .object)
  case object => exact uniqueValue_object
  case oneElement => exact fun _ ih => uniqueElements_one ih
  case elements => exact fun _ _ ih ihs => uniqueElements_cons ih ihs
  case element => exact fun hbefore h hafter ih => uniqueElement_mk hbefore h hafter ih
  case oneMember => exact fun _ ih => uniqueMembers_one ih
  case members => exact fun _ _ ih ihs => uniqueMembers_cons ih ihs
  case member =>
    exact fun hbefore hkey hcolon hvalue h hafter ih =>
      uniqueMember_mk hbefore hkey hcolon hvalue h hafter ih

/-- The members of an object are determined by its text. -/
theorem object_unique {ms ms' : List Member} (h : Object s ms) (h' : Object s ms') :
    ms = ms' := by
  have hbrace : ¬ IsSpace OPEN_BRACE := by decide
  cases h with
  | empty hbefore h _ =>
    cases h' with
    | empty => rfl
    | members hbefore' h' _ =>
      obtain ⟨_, rfl⟩ := spaces_cons_unique hbefore hbefore' hbrace hbrace
      exact absurd ⟨_, h'⟩ (not_entries_of_closed (k := .object) h)
  | members hbefore h _ =>
    cases h' with
    | empty hbefore' h' _ =>
      obtain ⟨_, rfl⟩ := spaces_cons_unique hbefore hbefore' hbrace hbrace
      exact absurd ⟨_, h⟩ (not_entries_of_closed (k := .object) h')
    | members hbefore' h' _ =>
      obtain ⟨_, rfl⟩ := spaces_cons_unique hbefore hbefore' hbrace hbrace
      exact (members_unique h _ _ _ rfl h').1

end Json
