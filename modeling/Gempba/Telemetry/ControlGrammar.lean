import Gempba.Library.JsonUnique
import Gempba.Telemetry.FieldReader
import Gempba.Telemetry.Inbox

/-!
# The grammar of control lines

A line is one object, and what it asks for stands in its top-level members. The
parser takes what stands in the first fields of the line instead, whatever the
line is, and does the same where the two readings agree.
-/

namespace Gempba.Telemetry

set_option autoImplicit false

open Json

/-! What a line asks for. -/

def MARK : Bytes := bytes "mark"

/-- The kinds without a value. -/
def PLAIN_KINDS : List (Bytes × ControlKind) :=
  [(bytes "pause", .PAUSE), (bytes "resume", .RESUME), (bytes "snapshot", .SNAPSHOT)]

/-- The kinds with a value, an interval or, for the last one, nothing. -/
def VALUED_KINDS : List (Bytes × ControlKind) :=
  [(bytes "set_interval_ms", .SET_INTERVAL_MS), (bytes "set_worker_interval_ms", .SET_INTERVAL_MS),
    (bytes "set_node_interval_ms", .UNSPECIFIED)]

def Documented (kind : Bytes) : Prop :=
  kind ∈ MARK :: (PLAIN_KINDS.map Prod.fst ++ VALUED_KINDS.map Prod.fst)

instance : DecidablePred Documented := fun _ => inferInstanceAs (Decidable (_ ∈ _))

/-- What is read as the kind, the label and the value. -/
structure Fields where
  kind : Bytes → Prop
  label : Bytes → Prop
  value : ℕ → Prop

inductive Fields.Asks (r : Fields) : Command → Prop
  | plain {name : Bytes} {kind : ControlKind} (hname : (name, kind) ∈ PLAIN_KINDS)
    (hkind : r.kind name) : Asks r (.control kind 0)
  | valued {name : Bytes} {kind : ControlKind} {value : ℕ} (hname : (name, kind) ∈ VALUED_KINDS)
    (hkind : r.kind name) (hvalue : r.value value) (hlt : value < 2 ^ 32) :
    Asks r (.control kind (UInt32.ofNat value))
  | mark {label : Bytes} (hkind : r.kind MARK) (hlabel : r.label label) : Asks r (.mark label)

/-- The fields make up a command: a documented kind with the value or the label that it needs. -/
inductive Fields.Complete (r : Fields) : Prop
  | plain {name : Bytes} (hname : name ∈ PLAIN_KINDS.map Prod.fst) (hkind : r.kind name)
  | valued {name : Bytes} {value : ℕ} (hname : name ∈ VALUED_KINDS.map Prod.fst)
    (hkind : r.kind name) (hvalue : r.value value) (hlt : value < 2 ^ 32)
  | mark {label : Bytes} (hkind : r.kind MARK) (hlabel : r.label label)

structure InGrammar (line : Bytes) (ms : List Member) : Prop where
  object : Object line ms
  plainKeys : ∀ m ∈ ms, m.HasPlainKey

/-- The top-level member with the name is a string. -/
def TopString (ms : List Member) (name v : Bytes) : Prop :=
  ∃ m, topLevel ms name = some m ∧ m.IsString v

/-- The top-level member with the name is an unsigned integer. -/
def TopUnsigned (ms : List Member) (name : Bytes) (n : ℕ) : Prop :=
  ∃ m, topLevel ms name = some m ∧ m.IsUnsigned n

def topFields (ms : List Member) : Fields where
  kind := TopString ms (bytes "kind")
  label := TopString ms (bytes "label")
  value := TopUnsigned ms (bytes "value")

def Means (line : Bytes) (command : Command) : Prop :=
  ∃ ms, InGrammar line ms ∧ (topFields ms).Asks command

/-! What stands in the fields of a line. -/

/-- The kind may have white space around it. -/
def firstFields (line : Bytes) : Fields where
  kind := fun k => ∃ before after, (∀ c ∈ before, IsBlank c) ∧ (∀ c ∈ after, IsBlank c) ∧
    FirstString line (bytes "kind") (before ++ k ++ after)
  label := FirstString line (bytes "label")
  value := FirstUnsigned line (bytes "value")

/-- Neither reading makes up a command, or both have kinds of one meaning with the same value or
label. -/
inductive Agree (r s : Fields) : Prop
  | neither (hr : ¬ r.Complete) (hs : ¬ s.Complete)
  | plain {name : Bytes} {kind : ControlKind} (hname : (name, kind) ∈ PLAIN_KINDS)
    (hr : r.kind name) (hs : s.kind name)
  | valued {name name' : Bytes} {kind : ControlKind} {value : ℕ}
    (hname : (name, kind) ∈ VALUED_KINDS) (hname' : (name', kind) ∈ VALUED_KINDS)
    (hr : r.kind name) (hs : s.kind name') (hrValue : r.value value) (hsValue : s.value value)
    (hlt : value < 2 ^ 32)
  | mark {label : Bytes} (hr : r.kind MARK) (hs : s.kind MARK) (hrLabel : r.label label)
    (hsLabel : s.label label)

/-- What stands in the fields is what the top-level members say or, of a line outside the grammar,
nothing that makes up a command. -/
structure Faithful (line : Bytes) : Prop where
  inside : ∀ ms, InGrammar line ms → Agree (firstFields line) (topFields ms)
  outside : (∀ ms, ¬ InGrammar line ms) → ¬ (firstFields line).Complete

/-- The field stands at the top-level member, or nowhere where there is none. -/
def Stands (line : Bytes) (ms : List Member) (name : Bytes) : Prop :=
  ∀ rest, AfterField line name rest ↔ ∃ m, topLevel ms name = some m ∧ m.value = rest

/-- The fields that matter stand at the top-level members; the kind is not padded, and no number
goes on after digits that pass for its value. -/
structure OnTopLevel (line : Bytes) (ms : List Member) : Prop where
  kind : Stands line ms (bytes "kind")
  padding : ∀ k before after, Documented k → (∀ c ∈ before, IsBlank c) → (∀ c ∈ after, IsBlank c) →
    TopString ms (bytes "kind") (before ++ k ++ after) → before = [] ∧ after = []
  label : TopString ms (bytes "kind") MARK → Stands line ms (bytes "label")
  value : ∀ k ∈ VALUED_KINDS.map Prod.fst, TopString ms (bytes "kind") k →
    Stands line ms (bytes "value") ∧ ∀ m, topLevel ms (bytes "value") = some m → ¬ CutShort m

theorem Fields.complete_iff {r : Fields} : r.Complete ↔ ∃ command, r.Asks command := by
  constructor
  · intro h
    cases h with
    | plain hname hkind =>
      obtain ⟨p, hp, rfl⟩ := List.mem_map.mp hname
      exact ⟨_, .plain hp hkind⟩
    | valued hname hkind hvalue hlt =>
      obtain ⟨p, hp, rfl⟩ := List.mem_map.mp hname
      exact ⟨_, .valued hp hkind hvalue hlt⟩
    | mark hkind hlabel => exact ⟨_, .mark hkind hlabel⟩
  · rintro ⟨command, h⟩
    cases h with
    | plain hname hkind => exact .plain (List.mem_map_of_mem hname) hkind
    | valued hname hkind hvalue hlt => exact .valued (List.mem_map_of_mem hname) hkind hvalue hlt
    | mark hkind hlabel => exact .mark hkind hlabel

/-! The parser reads the fields. -/

variable {line k name : Bytes} {ms : List Member} {command : Command} {kind : ControlKind}

theorem documented_mark : Documented MARK := List.mem_cons_self

theorem documented_plain (h : (k, kind) ∈ PLAIN_KINDS) : Documented k :=
  List.mem_cons_of_mem _ (List.mem_append_left _ (List.mem_map_of_mem h))

theorem documented_valued (h : (k, kind) ∈ VALUED_KINDS) : Documented k :=
  List.mem_cons_of_mem _ (List.mem_append_right _ (List.mem_map_of_mem h))

theorem trim_append (s : Bytes) : ∃ before after, (∀ c ∈ before, IsBlank c) ∧
    (∀ c ∈ after, IsBlank c) ∧ s = before ++ trim s ++ after := by
  refine ⟨s.takeWhile isspace, ((s.dropWhile isspace).reverse.takeWhile isspace).reverse,
    ?_, ?_, ?_⟩
  · exact fun c hc => isspace_iff.mp (List.mem_takeWhile_imp hc)
  · exact fun c hc => isspace_iff.mp (List.mem_takeWhile_imp (List.mem_reverse.mp hc))
  · rw [trim, List.append_assoc, ← List.reverse_append, List.takeWhile_append_dropWhile,
      List.reverse_reverse, List.takeWhile_append_dropWhile]

/-- White space around a documented kind is trimmed. -/
theorem trim_padded {before after : Bytes} (h : Documented k) (hbefore : ∀ c ∈ before, IsBlank c)
    (hafter : ∀ c ∈ after, IsBlank c) : trim (before ++ k ++ after) = k := by
  have hall : ∀ k ∈ MARK :: (PLAIN_KINDS.map Prod.fst ++ VALUED_KINDS.map Prod.fst),
      k.head?.map isspace = some false ∧ k.reverse.head?.map isspace = some false := by decide
  have hends : ∀ l rest : Bytes, l.head?.map isspace = some false →
      (l ++ rest).dropWhile isspace = l ++ rest := by
    intro l rest hl
    obtain ⟨c, hc, hspace⟩ := Option.map_eq_some_iff.mp hl
    refine dropWhile_self_of_head fun d hd => ?_
    rw [List.head?_append, hc, Option.some_or] at hd
    rw [← Option.some.inj hd]
    exact hspace
  obtain ⟨hhead, hlast⟩ := hall k h
  rw [trim, List.append_assoc,
    List.dropWhile_append_of_pos fun c hc => isspace_iff.mpr (hbefore c hc), hends k after hhead,
    List.reverse_append, List.dropWhile_append_of_pos fun c hc =>
      isspace_iff.mpr (hafter c (List.mem_reverse.mp hc))]
  have hkept : k.reverse.dropWhile isspace = k.reverse := by
    have hnil := hends k.reverse [] hlast
    rwa [List.append_nil] at hnil
  rw [hkept, List.reverse_reverse]

theorem firstFields_kind (h : Documented name) : (firstFields line).kind name ↔
    ∃ k, findStringField line (bytes "kind") = some k ∧ trim k = name := by
  constructor
  · rintro ⟨before, after, hbefore, hafter, hstring⟩
    exact ⟨_, findStringField_iff.mpr hstring, trim_padded h hbefore hafter⟩
  · rintro ⟨k, hk, rfl⟩
    obtain ⟨before, after, hbefore, hafter, hk'⟩ := trim_append k
    refine ⟨before, after, hbefore, hafter, ?_⟩
    rw [← hk']
    exact findStringField_iff.mp hk

theorem plainKind_iff : plainKind k = some kind ↔ (k, kind) ∈ PLAIN_KINDS := by
  rw [plainKind]
  split
  · rename_i hk
    rw [hk]
    cases kind <;> decide
  rename_i hpause
  split
  · rename_i hk
    rw [hk]
    cases kind <;> decide
  rename_i hresume
  split
  · rename_i hk
    rw [hk]
    cases kind <;> decide
  rename_i hsnapshot
  constructor
  · intro h
    cases h
  · intro h
    obtain h | h := List.mem_cons.mp h
    · exact absurd (congrArg Prod.fst h) hpause
    obtain h | h := List.mem_cons.mp h
    · exact absurd (congrArg Prod.fst h) hresume
    · exact absurd (congrArg Prod.fst (List.mem_singleton.mp h)) hsnapshot

theorem valuedKind_iff : valuedKind k = some kind ↔ (k, kind) ∈ VALUED_KINDS := by
  rw [valuedKind]
  split
  · rename_i hk
    obtain hk | hk := hk
    all_goals
      rw [hk]
      cases kind <;> decide
  rename_i hinterval
  split
  · rename_i hk
    rw [hk]
    cases kind <;> decide
  rename_i hnode
  constructor
  · intro h
    cases h
  · intro h
    obtain h | h := List.mem_cons.mp h
    · exact absurd (Or.inl (congrArg Prod.fst h)) hinterval
    obtain h | h := List.mem_cons.mp h
    · exact absurd (Or.inr (congrArg Prod.fst h)) hinterval
    · exact absurd (congrArg Prod.fst (List.mem_singleton.mp h)) hnode

theorem parseMarkerLine_iff {label : Bytes} : parseMarkerLine line = some label ↔
    ∃ k, findStringField line (bytes "kind") = some k ∧ trim k = MARK ∧
      findStringField line (bytes "label") = some label := by
  rw [parseMarkerLine]
  cases hk : findStringField line (bytes "kind") with
  | none =>
    constructor
    · intro h
      cases h
    · rintro ⟨k, h, _⟩
      cases h
  | some k =>
    simp only
    split
    · rename_i hmark
      constructor
      · exact fun h => ⟨k, rfl, hmark, h⟩
      · rintro ⟨_, _, _, h⟩
        exact h
    · rename_i hmark
      constructor
      · intro h
        cases h
      · rintro ⟨k', h, hmark', _⟩
        cases h
        exact absurd hmark' hmark

theorem plainKind_of_valued (h : (k, kind) ∈ VALUED_KINDS) : plainKind k = none := by
  have hall : ∀ p ∈ VALUED_KINDS, plainKind p.1 = none := by decide
  exact hall _ h

theorem parseControlLine_iff {value : UInt32} : parseControlLine line = some (kind, value) ↔
    ∃ k, findStringField line (bytes "kind") = some k ∧
      (((trim k, kind) ∈ PLAIN_KINDS ∧ value = 0) ∨
        ((trim k, kind) ∈ VALUED_KINDS ∧ findUintField line (bytes "value") = some value)) := by
  rw [parseControlLine]
  cases hk : findStringField line (bytes "kind") with
  | none =>
    constructor
    · intro h
      cases h
    · rintro ⟨k, h, _⟩
      cases h
  | some k =>
    simp only [Option.some.injEq, exists_eq_left']
    cases hplain : plainKind (trim k) with
    | some control =>
      constructor
      · intro h
        cases h
        exact Or.inl ⟨plainKind_iff.mp hplain, rfl⟩
      · rintro (⟨h, rfl⟩ | ⟨h, _⟩)
        · rw [plainKind_iff.mpr h] at hplain
          cases hplain
          rfl
        · rw [plainKind_of_valued h] at hplain
          cases hplain
    | none =>
      have hnot : ∀ {kind}, (trim k, kind) ∉ PLAIN_KINDS := by
        intro kind h
        rw [plainKind_iff.mpr h] at hplain
        cases hplain
      cases hvalue : findUintField line (bytes "value") with
      | none =>
        constructor
        · intro h
          cases h
        · rintro (⟨h, _⟩ | ⟨_, h⟩)
          · exact absurd h hnot
          · cases h
      | some found =>
        constructor
        · intro h
          obtain ⟨control, hcontrol, heq⟩ := Option.map_eq_some_iff.mp h
          cases heq
          exact Or.inr ⟨valuedKind_iff.mp hcontrol, rfl⟩
        · rintro (⟨h, _⟩ | ⟨h, hfound⟩)
          · exact absurd h hnot
          · cases hfound
            exact Option.map_eq_some_iff.mpr ⟨kind, valuedKind_iff.mpr h, rfl⟩

theorem mark_not_mem : (MARK, kind) ∉ PLAIN_KINDS ∧ (MARK, kind) ∉ VALUED_KINDS := by
  cases kind <;> decide

theorem parseLine_iff : parseLine line = some command ↔ (firstFields line).Asks command := by
  rw [parseLine]
  cases hmarker : parseMarkerLine line with
  | some label =>
    obtain ⟨k, hk, hmark, hlabel⟩ := parseMarkerLine_iff.mp hmarker
    have hkind : ∀ {name}, Documented name → (firstFields line).kind name → name = MARK := by
      intro name hdocumented hname
      obtain ⟨k', hk', htrim⟩ := (firstFields_kind hdocumented).mp hname
      cases hk.symm.trans hk'
      exact htrim.symm.trans hmark
    constructor
    · intro h
      cases h
      exact .mark ((firstFields_kind documented_mark).mpr ⟨k, hk, hmark⟩)
        (findStringField_iff.mp hlabel)
    · intro h
      cases h with
      | plain hname hread =>
        rw [hkind (documented_plain hname) hread] at hname
        exact absurd hname mark_not_mem.1
      | valued hname hread =>
        rw [hkind (documented_valued hname) hread] at hname
        exact absurd hname mark_not_mem.2
      | mark _ hlabel' =>
        cases hlabel.symm.trans (findStringField_iff.mpr hlabel')
        rfl
  | none =>
    constructor
    · intro h
      obtain ⟨⟨kind, value⟩, hcontrol, rfl⟩ := Option.map_eq_some_iff.mp h
      obtain ⟨k, hk, ⟨hname, rfl⟩ | ⟨hname, hvalue⟩⟩ := parseControlLine_iff.mp hcontrol
      · exact .plain hname ((firstFields_kind (documented_plain hname)).mpr ⟨k, hk, rfl⟩)
      · obtain ⟨n, hn, hlt, rfl⟩ := findUintField_iff.mp hvalue
        exact .valued hname ((firstFields_kind (documented_valued hname)).mpr ⟨k, hk, rfl⟩) hn hlt
    · intro h
      cases h with
      | plain hname hread =>
        obtain ⟨k, hk, rfl⟩ := (firstFields_kind (documented_plain hname)).mp hread
        have hcontrol := parseControlLine_iff.mpr ⟨k, hk, Or.inl ⟨hname, rfl⟩⟩
        exact Option.map_eq_some_iff.mpr ⟨_, hcontrol, rfl⟩
      | valued hname hread hvalue hlt =>
        obtain ⟨k, hk, rfl⟩ := (firstFields_kind (documented_valued hname)).mp hread
        have hfound := findUintField_iff.mpr ⟨_, hvalue, hlt, rfl⟩
        have hcontrol := parseControlLine_iff.mpr ⟨k, hk, Or.inr ⟨hname, hfound⟩⟩
        exact Option.map_eq_some_iff.mpr ⟨_, hcontrol, rfl⟩
      | mark hread hlabel =>
        obtain ⟨k, hk, hmark⟩ := (firstFields_kind documented_mark).mp hread
        rw [parseMarkerLine_iff.mpr ⟨k, hk, hmark, findStringField_iff.mpr hlabel⟩] at hmarker
        cases hmarker

/-! Two readings. -/

section Readings

variable {r s : Fields}

theorem firstFields_unique {c c' : Command} (h : (firstFields line).Asks c)
    (h' : (firstFields line).Asks c') : c = c' :=
  Option.some.inj ((parseLine_iff.mpr h).symm.trans (parseLine_iff.mpr h'))

theorem isString_unique {m : Member} {v v' : Bytes} (hm : m.Placed) (h : m.IsString v)
    (h' : m.IsString v') : v = v' := by
  have hread := stringAt_iff.mpr ((spells_iff hm).mpr h)
  have hread' := stringAt_iff.mpr ((spells_iff hm).mpr h')
  exact Option.some.inj (hread.symm.trans hread')

theorem topString_unique {v v' : Bytes} (hms : ∀ m ∈ ms, m.Placed) (h : TopString ms name v)
    (h' : TopString ms name v') : v = v' := by
  obtain ⟨m, hm, hstring⟩ := h
  obtain ⟨m', hm', hstring'⟩ := h'
  cases hm.symm.trans hm'
  exact isString_unique (hms m (topLevel_mem hm)) hstring hstring'

theorem topUnsigned_unique {n n' : ℕ} (h : TopUnsigned ms name n) (h' : TopUnsigned ms name n') :
    n = n' := by
  obtain ⟨m, hm, _, digits, htext, rfl⟩ := h
  obtain ⟨m', hm', _, digits', htext', rfl⟩ := h'
  cases hm.symm.trans hm'
  rw [List.append_cancel_right (htext.symm.trans htext')]

variable {k' : Bytes} {kind' : ControlKind}

theorem plain_iff (h : (k, kind) ∈ PLAIN_KINDS) (h' : (k', kind') ∈ PLAIN_KINDS) :
    k = k' ↔ kind = kind' := by
  have hall : ∀ p ∈ PLAIN_KINDS, ∀ q ∈ PLAIN_KINDS, p.1 = q.1 ↔ p.2 = q.2 := by decide
  exact hall _ h _ h'

theorem valued_unique (h : (k, kind) ∈ VALUED_KINDS) (h' : (k, kind') ∈ VALUED_KINDS) :
    kind = kind' := by
  have hall : ∀ p ∈ VALUED_KINDS, ∀ q ∈ VALUED_KINDS, p.1 = q.1 → p.2 = q.2 := by decide
  exact hall _ h _ h' rfl

theorem plain_ne_valued (h : (k, kind) ∈ PLAIN_KINDS) (h' : (k', kind') ∈ VALUED_KINDS) :
    k ≠ k' ∧ kind ≠ kind' := by
  have hall : ∀ p ∈ PLAIN_KINDS, ∀ q ∈ VALUED_KINDS, p.1 ≠ q.1 ∧ p.2 ≠ q.2 := by decide
  exact hall _ h _ h'

theorem topFields_unique {c c' : Command} (hms : ∀ m ∈ ms, m.Placed) (h : (topFields ms).Asks c)
    (h' : (topFields ms).Asks c') : c = c' := by
  cases h with
  | plain hname hkind =>
    cases h' with
    | plain hname' hkind' =>
      rw [(plain_iff hname hname').mp (topString_unique hms hkind hkind')]
    | valued hname' hkind' =>
      exact absurd (topString_unique hms hkind hkind') (plain_ne_valued hname hname').1
    | mark hkind' =>
      rw [topString_unique hms hkind hkind'] at hname
      exact absurd hname mark_not_mem.1
  | valued hname hkind hvalue =>
    cases h' with
    | plain hname' hkind' =>
      exact absurd (topString_unique hms hkind' hkind) (plain_ne_valued hname' hname).1
    | valued hname' hkind' hvalue' =>
      rw [topString_unique hms hkind hkind'] at hname
      rw [valued_unique hname hname', topUnsigned_unique hvalue hvalue']
    | mark hkind' =>
      rw [topString_unique hms hkind hkind'] at hname
      exact absurd hname mark_not_mem.2
  | mark hkind hlabel =>
    cases h' with
    | plain hname' hkind' =>
      rw [topString_unique hms hkind' hkind] at hname'
      exact absurd hname' mark_not_mem.1
    | valued hname' hkind' =>
      rw [topString_unique hms hkind' hkind] at hname'
      exact absurd hname' mark_not_mem.2
    | mark _ hlabel' => rw [topString_unique hms hlabel hlabel']

theorem Agree.exists_asks (h : Agree r s) :
    (∃ command, r.Asks command ∧ s.Asks command) ∨ ¬ r.Complete ∧ ¬ s.Complete := by
  cases h with
  | neither hr hs => exact Or.inr ⟨hr, hs⟩
  | plain hname hr hs => exact Or.inl ⟨_, .plain hname hr, .plain hname hs⟩
  | valued hname hname' hr hs hrValue hsValue hlt =>
    exact Or.inl ⟨_, .valued hname hr hrValue hlt, .valued hname' hs hsValue hlt⟩
  | mark hr hs hrLabel hsLabel => exact Or.inl ⟨_, .mark hr hrLabel, .mark hs hsLabel⟩

theorem agree_of_asks (hr : r.Asks command) (hs : s.Asks command) : Agree r s := by
  cases hr with
  | plain hname hr =>
    generalize hcommand : Command.control _ 0 = command at hs
    cases hs with
    | plain hname' hs =>
      cases hcommand
      rw [← (plain_iff hname hname').mpr rfl] at hs
      exact .plain hname hr hs
    | valued hname' =>
      exact absurd (Command.control.inj hcommand).1 (plain_ne_valued hname hname').2
    | mark => cases hcommand
  | @valued _ _ value hname hr hrValue hlt =>
    generalize hcommand : Command.control _ (UInt32.ofNat value) = command at hs
    cases hs with
    | plain hname' =>
      exact absurd (Command.control.inj hcommand).1.symm (plain_ne_valued hname' hname).2
    | @valued _ _ value' hname' hs hsValue hlt' =>
      obtain ⟨rfl, hvalue⟩ := Command.control.inj hcommand
      have hnumber := congrArg UInt32.toNat hvalue
      rw [UInt32.toNat_ofNat_of_lt' hlt, UInt32.toNat_ofNat_of_lt' hlt'] at hnumber
      exact .valued hname hname' hr hs hrValue (hnumber ▸ hsValue) hlt
    | mark => cases hcommand
  | mark hr hrLabel =>
    generalize hcommand : Command.mark _ = command at hs
    cases hs with
    | plain => cases hcommand
    | valued => cases hcommand
    | mark hs hsLabel =>
      cases hcommand
      exact .mark hr hs hrLabel hsLabel

/-- Two readings that each ask for one command at most agree where they ask for the same. -/
theorem agree_iff (hr : ∀ {c c'}, r.Asks c → r.Asks c' → c = c')
    (hs : ∀ {c c'}, s.Asks c → s.Asks c' → c = c') :
    Agree r s ↔ ∀ command, r.Asks command ↔ s.Asks command := by
  constructor
  · intro h command
    obtain ⟨found, hfoundR, hfoundS⟩ | ⟨hnotR, hnotS⟩ := h.exists_asks
    · constructor
      · exact fun hask => hr hfoundR hask ▸ hfoundS
      · exact fun hask => hs hfoundS hask ▸ hfoundR
    · exact iff_of_false (fun hask => hnotR (Fields.complete_iff.mpr ⟨command, hask⟩))
        fun hask => hnotS (Fields.complete_iff.mpr ⟨command, hask⟩)
  · intro h
    obtain hcomplete | hnone := Classical.em r.Complete
    · obtain ⟨command, hask⟩ := Fields.complete_iff.mp hcomplete
      exact agree_of_asks hask ((h command).mp hask)
    · refine .neither hnone fun hcomplete => ?_
      obtain ⟨command, hask⟩ := Fields.complete_iff.mp hcomplete
      exact hnone (Fields.complete_iff.mpr ⟨command, (h command).mpr hask⟩)

end Readings

/-! The fields at the top level. -/

theorem Stands.string {v : Bytes} (h : Stands line ms name) (hms : ∀ m ∈ ms, m.Placed) :
    FirstString line name v ↔ TopString ms name v := by
  constructor
  · rintro ⟨s, hfollows, hs⟩
    obtain ⟨m, hm, hvalue⟩ := (h _).mp hfollows
    exact ⟨m, hm, (spells_iff (hms m (topLevel_mem hm))).mp ⟨s, hvalue, hs⟩⟩
  · rintro ⟨m, hm, hstring⟩
    obtain ⟨s, hvalue, hs⟩ := (spells_iff (hms m (topLevel_mem hm))).mpr hstring
    exact ⟨s, (h _).mpr ⟨m, hm, hvalue⟩, hs⟩

theorem Stands.unsigned {n : ℕ} (h : Stands line ms name) (hms : ∀ m ∈ ms, m.Placed)
    (hcut : ∀ m, topLevel ms name = some m → ¬ CutShort m) (hlt : n < 2 ^ 32) :
    FirstUnsigned line name n ↔ TopUnsigned ms name n := by
  constructor
  · rintro ⟨digits, rest, hfollows, hdecimal, hn⟩
    obtain ⟨m, hm, hvalue⟩ := (h _).mp hfollows
    exact ⟨m, hm, (decimal_iff (hms m (topLevel_mem hm)) (hcut m hm) hlt).mp
      ⟨digits, rest, hvalue, hdecimal, hn⟩⟩
  · rintro ⟨m, hm, hunsigned⟩
    obtain ⟨digits, rest, hvalue, hdecimal, hn⟩ :=
      (decimal_iff (hms m (topLevel_mem hm)) (hcut m hm) hlt).mpr hunsigned
    exact ⟨digits, rest, (h _).mpr ⟨m, hm, hvalue⟩, hdecimal, hn⟩

theorem OnTopLevel.kind_iff (h : OnTopLevel line ms) (hms : ∀ m ∈ ms, m.Placed)
    (hk : Documented k) : (firstFields line).kind k ↔ TopString ms (bytes "kind") k := by
  constructor
  · rintro ⟨before, after, hbefore, hafter, hstring⟩
    have htop := (h.kind.string hms).mp hstring
    obtain ⟨rfl, rfl⟩ := h.padding k before after hk hbefore hafter htop
    rwa [List.nil_append, List.append_nil] at htop
  · intro htop
    refine ⟨[], [], List.forall_mem_nil _, List.forall_mem_nil _, ?_⟩
    rw [List.nil_append, List.append_nil]
    exact (h.kind.string hms).mpr htop

theorem OnTopLevel.asks_iff (h : OnTopLevel line ms) (hms : ∀ m ∈ ms, m.Placed) :
    (firstFields line).Asks command ↔ (topFields ms).Asks command := by
  constructor
  · intro hask
    cases hask with
    | plain hname hkind => exact .plain hname ((h.kind_iff hms (documented_plain hname)).mp hkind)
    | valued hname hkind hvalue hlt =>
      have htop := (h.kind_iff hms (documented_valued hname)).mp hkind
      obtain ⟨hstands, hcut⟩ := h.value _ (List.mem_map_of_mem hname) htop
      exact .valued hname htop ((hstands.unsigned hms hcut hlt).mp hvalue) hlt
    | mark hkind hlabel =>
      have htop := (h.kind_iff hms documented_mark).mp hkind
      exact .mark htop (((h.label htop).string hms).mp hlabel)
  · intro hask
    cases hask with
    | plain hname hkind => exact .plain hname ((h.kind_iff hms (documented_plain hname)).mpr hkind)
    | valued hname hkind hvalue hlt =>
      obtain ⟨hstands, hcut⟩ := h.value _ (List.mem_map_of_mem hname) hkind
      exact .valued hname ((h.kind_iff hms (documented_valued hname)).mpr hkind)
        ((hstands.unsigned hms hcut hlt).mpr hvalue) hlt
    | mark hkind hlabel =>
      exact .mark ((h.kind_iff hms documented_mark).mpr hkind)
        (((h.label hkind).string hms).mpr hlabel)

theorem agree_top_iff (h : InGrammar line ms) : Agree (firstFields line) (topFields ms) ↔
    ∀ command, (firstFields line).Asks command ↔ (topFields ms).Asks command :=
  agree_iff firstFields_unique (topFields_unique (object_placed h.object))

/-- Of a line of the grammar, the meaning is that of its members, which its text determines. -/
theorem means_iff (h : InGrammar line ms) :
    Means line command ↔ (topFields ms).Asks command := by
  constructor
  · rintro ⟨ms', h', hask⟩
    rwa [object_unique h.object h'.object]
  · exact fun hask => ⟨ms, h, hask⟩

/-- The parser yields what a line means exactly where the two readings agree; they do where the
fields of an object stand at its top-level members. -/
theorem parseLine_grammar (line : Bytes) :
    ((∀ command, parseLine line = some command ↔ Means line command) ↔ Faithful line) ∧
    ∀ ms, InGrammar line ms → OnTopLevel line ms → Faithful line := by
  constructor
  · constructor
    · intro hmeans
      constructor
      · intro ms hms
        rw [agree_top_iff hms]
        intro command
        rw [← parseLine_iff, hmeans, means_iff hms]
      · intro hnone hcomplete
        obtain ⟨command, hask⟩ := Fields.complete_iff.mp hcomplete
        obtain ⟨ms, hms, _⟩ := (hmeans command).mp (parseLine_iff.mpr hask)
        exact hnone ms hms
    · intro hfaithful command
      rw [parseLine_iff]
      obtain ⟨ms, hms⟩ | hnone := Classical.em (∃ ms, InGrammar line ms)
      · rw [means_iff hms]
        exact (agree_top_iff hms).mp (hfaithful.inside ms hms) command
      · have houtside : ∀ ms, ¬ InGrammar line ms := fun ms hms => hnone ⟨ms, hms⟩
        constructor
        · intro hask
          exact absurd (Fields.complete_iff.mpr ⟨command, hask⟩) (hfaithful.outside houtside)
        · rintro ⟨ms, hms, _⟩
          exact absurd ⟨ms, hms⟩ hnone
  · intro ms hms htop
    constructor
    · intro ms' hms'
      cases object_unique hms.object hms'.object
      rw [agree_top_iff hms]
      exact fun command => htop.asks_iff (object_placed hms.object)
    · exact fun hnone => absurd hms (hnone ms)

/-! A line with an interval. -/

def intervalMember : Member where
  key := bytes "value" ++ QUOTE :: COLON :: 0x32 :: 0x35 :: 0x30 :: [CLOSE_BRACE]
  keyEnd := COLON :: 0x32 :: 0x35 :: 0x30 :: [CLOSE_BRACE]
  value := 0x32 :: 0x35 :: 0x30 :: [CLOSE_BRACE]
  rest := [CLOSE_BRACE]

def kindMember : Member where
  key := bytes "kind" ++ QUOTE :: COLON :: QUOTE ::
    (bytes "set_interval_ms" ++ QUOTE :: COMMA :: QUOTE :: intervalMember.key)
  keyEnd := COLON :: QUOTE ::
    (bytes "set_interval_ms" ++ QUOTE :: COMMA :: QUOTE :: intervalMember.key)
  value := QUOTE :: (bytes "set_interval_ms" ++ QUOTE :: COMMA :: QUOTE :: intervalMember.key)
  rest := COMMA :: QUOTE :: intervalMember.key

def intervalLine : Bytes := OPEN_BRACE :: QUOTE :: kindMember.key

theorem intervalLine_inGrammar : InGrammar intervalLine [kindMember, intervalMember] where
  object := by
    have hvalue : Value intervalMember.value [CLOSE_BRACE] := by
      have hdigits : Digits (0x35 :: 0x30 :: [CLOSE_BRACE]) [CLOSE_BRACE] :=
        .cons (by decide) (.one _ (by decide))
      exact .number (.positive (.mk (.digits (by decide) (by decide) hdigits) (.none _) (.none _)))
    have hinterval : IsMember (QUOTE :: intervalMember.key) intervalMember [CLOSE_BRACE] :=
      .mk (.nil _) (chars_plain (by decide +kernel)) (.nil _) (.nil _) hvalue (.nil _)
    have hkind : IsMember (QUOTE :: kindMember.key) kindMember
        (COMMA :: QUOTE :: intervalMember.key) :=
      .mk (.nil _) (chars_plain (by decide +kernel)) (.nil _) (.nil _)
        (.string (chars_plain (by decide +kernel))) (.nil _)
    exact .members (.nil _) (.cons hkind (.one hinterval)) (.nil _)
  plainKeys := by
    intro m hm
    obtain rfl | hm := List.mem_cons.mp hm
    · exact ⟨bytes "kind", rfl, by decide +kernel⟩
    · rw [List.mem_singleton.mp hm]
      exact ⟨bytes "value", rfl, by decide +kernel⟩

theorem stands_of_find (h : findFieldValue line name = (topLevel ms name).map Member.value) :
    Stands line ms name := by
  intro rest
  rw [← findFieldValue_iff, h, Option.map_eq_some_iff]

theorem intervalLine_onTopLevel : OnTopLevel intervalLine [kindMember, intervalMember] := by
  have hkind : Stands intervalLine [kindMember, intervalMember] (bytes "kind") := by
    apply stands_of_find
    decide +kernel
  have hplaced := object_placed intervalLine_inGrammar.object
  have hname : TopString [kindMember, intervalMember] (bytes "kind") (bytes "set_interval_ms") := by
    rw [← hkind.string hplaced, ← findStringField_iff]
    decide +kernel
  refine ⟨hkind, ?_, ?_, ?_⟩
  · intro k before after _ hbefore hafter htop
    have hnoBlank : ∀ c ∈ bytes "set_interval_ms", ¬ IsBlank c := by decide +kernel
    rw [topString_unique hplaced hname htop] at hnoBlank
    constructor
    · refine List.eq_nil_iff_forall_not_mem.mpr fun c hc => ?_
      exact hnoBlank c (List.mem_append_left _ (List.mem_append_left _ hc)) (hbefore c hc)
    · refine List.eq_nil_iff_forall_not_mem.mpr fun c hc => ?_
      exact hnoBlank c (List.mem_append_right _ hc) (hafter c hc)
  · intro hmark
    have hne : bytes "set_interval_ms" ≠ MARK := by decide +kernel
    exact absurd (topString_unique hplaced hname hmark) hne
  · intro k _ _
    constructor
    · apply stands_of_find
      decide +kernel
    · intro m hm
      have hfound : topLevel [kindMember, intervalMember] (bytes "value") = some intervalMember :=
        rfl
      cases hfound.symm.trans hm
      rintro ⟨digits, rest, hvalue, hdecimal, _, hne⟩
      have hdigits : digits = [0x32, 0x35, 0x30] := by
        rw [← hdecimal.takeWhile, ← hvalue]
        rfl
      rw [hdigits] at hvalue
      have hrest : [0x32, 0x35, 0x30] ++ [CLOSE_BRACE] = [0x32, 0x35, 0x30] ++ rest := hvalue
      exact hne (List.append_cancel_left hrest).symm

theorem parseLine_grammar_interval :
    parseLine intervalLine = some (.control .SET_INTERVAL_MS 250) ∧
    ∀ command, parseLine intervalLine = some command ↔ Means intervalLine command := by
  constructor
  · decide +kernel
  · exact (parseLine_grammar intervalLine).1.mpr ((parseLine_grammar intervalLine).2
      [kindMember, intervalMember] intervalLine_inGrammar intervalLine_onTopLevel)

/-- A line that is cut before its closing brace. -/
def cutLine : Bytes := bytes "\x7b\"kind\":\"pause\""

theorem cutLine_applied : ¬ ∀ line : Bytes, NEWLINE ∉ line →
    ∀ command, parseLine line = some command ↔ Means line command := by
  intro hall
  have hread : parseLine cutLine = some (.control .PAUSE 0) := by decide +kernel
  have hline : NEWLINE ∉ cutLine := by decide +kernel
  obtain ⟨ms, hms, _⟩ := (hall cutLine hline _).mp hread
  have haccepts : Accepts .text cutLine := accepts_text_iff.mpr ⟨ms, hms.object⟩
  have hrejects : ¬ Accepts .text cutLine := by decide +kernel
  exact hrejects haccepts

end Gempba.Telemetry
