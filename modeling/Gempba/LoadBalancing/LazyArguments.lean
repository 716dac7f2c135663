import Gempba.Library.Machine
import Gempba.LoadBalancing.NodeCore

/-!
# The arguments that the user's functions are applied to

One node under any sequence of calls, with the node as it stands where a call
throws. `should_branch` sets the initialization flag also where it has no
arguments to store, and the flag is all that the other members test.
-/

namespace Gempba

set_option autoImplicit false

open Transition

variable {α : Type}

inductive CallThrow where
  | member (e : Throw)
  | alreadyInitialized
  | deserializerNotSet
  | userFunction
  | pushRefused
  deriving DecidableEq, Repr

/-- `invocations` counts the tasks of the node that wait in the pool. `applied` lists what the
user's function and serializer were applied to, `given` what the explicit constructor and the
deserializer gave. -/
structure ArgumentNode (α : Type) extends NodeCore α where
  argsDeserializer : Bool
  invocations : ℕ := 0
  applied : List (Option α) := []
  given : List α := []

namespace ArgumentNode

abbrev Result (α : Type) := EStateM.Result CallThrow (ArgumentNode α) Unit

def after : Result α → ArgumentNode α
  | .ok _ n => n
  | .error _ n => n

/-! ## The three kinds of nodes -/

def explicitly (args : α) (serializer deserializer : Bool) : ArgumentNode α :=
  { NodeCore.explicitly args serializer with argsDeserializer := deserializer, given := [args] }

def lazily (initializer : ℕ → Option α) (serializer deserializer : Bool) : ArgumentNode α :=
  { NodeCore.lazily initializer serializer with argsDeserializer := deserializer }

/-- Waits for the deserializer. -/
def placeholder (serializer deserializer : Bool) : ArgumentNode α :=
  { argsSerializer := serializer, argsDeserializer := deserializer }

/-! ## The calls -/

/-- An initializer that declines has been called as well. -/
def ensureArgsInitialized (n : ArgumentNode α) : Result α :=
  match n.toNodeCore.ensureArgsInitialized with
  | .ok m => .ok () { n with toNodeCore := m }
  | .error e =>
    let calls := if n.initializationFlag = .lazy then n.initializerCalls + 1
      else n.initializerCalls
    .error (.member e) { n with initializerCalls := calls }

/-- The user's code runs on the arguments that the node stores, and may throw. -/
def applyTo (n : ArgumentNode α) (returns : Bool) : Result α :=
  let n := { n with applied := n.arguments :: n.applied }
  if returns then .ok () n else .error .userFunction n

def run (returns : Bool) (n : ArgumentNode α) : Result α :=
  if n.state ≠ .unused then .error (.member .alreadyConsumed) n
  else
    match n.ensureArgsInitialized with
    | .error e n => .error e n
    | .ok _ n =>
      match n.applyTo returns with
      | .error e n => .error e n
      | .ok _ n => .ok () { n with state := .forwarded }

def delegateLocally (n : ArgumentNode α) : Result α :=
  if n.state ≠ .unused then .error (.member .alreadyConsumed) n
  else
    match n.ensureArgsInitialized with
    | .error e n => .error e n
    | .ok _ n => .ok () { n with invocations := n.invocations + 1, state := .pushed }

/-- A thread of the pool runs the function. -/
def invoke (returns : Bool) (n : ArgumentNode α) : Result α :=
  applyTo { n with invocations := n.invocations - 1 } returns

def serialize (returns : Bool) (n : ArgumentNode α) : Result α :=
  match n.toNodeCore.serialize with
  | .error e => .error (.member e) n
  | .ok _ => n.applyTo returns

/-- `pushes` tells whether `force_push` accepts the packet. -/
def delegateRemotely (returns pushes : Bool) (n : ArgumentNode α) : Result α :=
  if n.state ≠ .unused then .error (.member .alreadyConsumed) n
  else
    match n.ensureArgsInitialized with
    | .error e n => .error e n
    | .ok _ n =>
      match n.serialize returns with
      | .error e n => .error e n
      | .ok _ n =>
        if pushes then .ok () { n with state := .sentToAnotherProcess }
        else .error .pushRefused n

/-- `args` is what the deserializer makes of the packet, if it returns. -/
def deserialize (args : Option α) (n : ArgumentNode α) : Result α :=
  if n.initializationFlag ≠ .uninitialized then .error .alreadyInitialized n
  else if n.argsDeserializer = false then .error .deserializerNotSet n
  else
    match args with
    | none => .error .userFunction n
    | some a => .ok () { n with
        arguments := some a, initializationFlag := .deserialized, given := a :: n.given }

inductive NodeCall (α : Type) where
  | shouldBranch
  | run (returns : Bool)
  | delegateLocally
  | invoke (returns : Bool)
  | delegateRemotely (returns pushes : Bool)
  | serialize (returns : Bool)
  | deserialize (args : Option α)
  | setState (s : NodeState)

/-- The caller swallows what a call throws. -/
def calls : Machine (ArgumentNode α) (NodeCall α) CallThrow where
  initial n := (∃ args s d, n = explicitly args s d) ∨
    (∃ initializer s d, n = lazily initializer s d) ∨ ∃ s d, n = placeholder s d
  step
    | .shouldBranch, n => .moved { n with toNodeCore := n.toNodeCore.shouldBranch.2 }
    | .run returns, n => .moved (after (n.run returns))
    | .delegateLocally, n => .moved (after n.delegateLocally)
    | .invoke returns, n =>
      if 0 < n.invocations then .moved (after (n.invoke returns)) else .blocked
    | .delegateRemotely returns pushes, n => .moved (after (n.delegateRemotely returns pushes))
    | .serialize returns, n => .moved (after (n.serialize returns))
    | .deserialize args, n => .moved (after (n.deserialize args))
    | .setState s, n => .moved { n with toNodeCore := n.toNodeCore.setState s }

/-! ## The law -/

/-- From the explicit constructor, the deserializer or a successful initializer call. -/
def Obtained (n : ArgumentNode α) (a : α) : Prop :=
  a ∈ n.given ∨ ∃ i, i < n.initializerCalls ∧ n.initializer i = some a

structure Lawful (n : ArgumentNode α) : Prop where
  applied : ∀ x ∈ n.applied, ∃ a, x = some a ∧ n.Obtained a
  once : ∀ i, i + 1 < n.initializerCalls → n.initializer i = none

/-- `should_branch` has answered no, and the node has never had arguments. -/
def Unready (n : ArgumentNode α) : Prop :=
  n.shouldBranchCached = some false ∧ n.arguments = none

/-- The call gets as far as the user's function or serializer, if there are arguments. -/
def Applies (n : ArgumentNode α) : NodeCall α → Prop
  | .run _ => n.state = .unused
  | .invoke _ => True
  | .delegateRemotely _ _ => n.state = .unused ∧ n.argsSerializer = true
  | .serialize _ => n.argsSerializer = true
  | _ => False

def Spares (n : ArgumentNode α) (l : NodeCall α) : Prop := n.Applies l → ¬ n.Unready

variable {n m : ArgumentNode α} {l : NodeCall α} {returns pushes : Bool} {a : α}

/-- What the flag, the cached answer and the stored arguments say about one another. -/
structure Sound (n : ArgumentNode α) : Prop where
  ready : n.initializationFlag = .initialized → n.arguments = none →
    n.shouldBranchCached = some false
  declined : n.shouldBranchCached = some false → n.arguments = none →
    n.initializationFlag = .initialized
  deserialized : n.initializationFlag = .deserialized → n.arguments ≠ none
  asking : n.initializationFlag = .lazy → ∀ i, i < n.initializerCalls → n.initializer i = none
  stored : ∀ a, n.arguments = some a → n.Obtained a
  once : ∀ i, i + 1 < n.initializerCalls → n.initializer i = none
  queued : 0 < n.invocations →
    n.initializationFlag = .initialized ∨ n.initializationFlag = .deserialized

/-- Nothing new is applied, and nothing that was obtained is lost. -/
structure Keeps (n m : ArgumentNode α) : Prop where
  applied : m.applied = n.applied
  obtained : ∀ a, n.Obtained a → m.Obtained a

theorem Lawful.keeps (h : n.Lawful) (hm : m.Sound) (hkeeps : n.Keeps m) : m.Lawful := by
  refine ⟨fun x hx => ?_, hm.once⟩
  rw [hkeeps.applied] at hx
  obtain ⟨a, rfl, ha⟩ := h.applied x hx
  exact ⟨a, rfl, hkeeps.obtained a ha⟩

/-! ## The cases of the two members that initialize -/

theorem ensureArgs_uninitialized (hFlag : n.initializationFlag = .uninitialized) :
    n.ensureArgsInitialized = .error (.member .argumentsNotInitialized) n := by
  have hLazy : n.initializationFlag ≠ .lazy := by
    rw [hFlag]
    exact fun he => by cases he
  have hCore : n.toNodeCore.ensureArgsInitialized = .error .argumentsNotInitialized := by
    rw [NodeCore.ensureArgsInitialized, hFlag]
  rw [ensureArgsInitialized, hCore]
  simp only [if_neg hLazy]

theorem ensureArgs_declined (hFlag : n.initializationFlag = .lazy)
    (hDeclined : n.initializer n.initializerCalls = none) : n.ensureArgsInitialized =
      .error (.member .nonWorthyNode) { n with initializerCalls := n.initializerCalls + 1 } := by
  have hCore : n.toNodeCore.ensureArgsInitialized = .error .nonWorthyNode := by
    simp only [NodeCore.ensureArgsInitialized, hFlag, hDeclined]
  rw [ensureArgsInitialized, hCore]
  simp only [if_pos hFlag]

theorem ensureArgs_answered (hFlag : n.initializationFlag = .lazy)
    (hAnswer : n.initializer n.initializerCalls = some a) : n.ensureArgsInitialized =
      .ok () { n with
        arguments := some a
        initializationFlag := .initialized
        initializerCalls := n.initializerCalls + 1 } := by
  have hCore : n.toNodeCore.ensureArgsInitialized = .ok { n.toNodeCore with
      arguments := some a
      initializationFlag := .initialized
      initializerCalls := n.initializerCalls + 1 } := by
    simp only [NodeCore.ensureArgsInitialized, hFlag, hAnswer]
  rw [ensureArgsInitialized, hCore]

theorem ensureArgs_ready
    (hFlag : n.initializationFlag = .initialized ∨ n.initializationFlag = .deserialized) :
    n.ensureArgsInitialized = .ok () n := by
  have hCore : n.toNodeCore.ensureArgsInitialized = .ok n.toNodeCore := by
    obtain hFlag | hFlag := hFlag
    · rw [NodeCore.ensureArgsInitialized, hFlag]
    · rw [NodeCore.ensureArgsInitialized, hFlag]
  rw [ensureArgsInitialized, hCore]

/-- What `should_branch` stores when it has no cached answer. -/
theorem shouldBranch_cases (c : NodeCore α) (h : c.shouldBranchCached = none) :
    c.shouldBranch.2 =
      { c with initializationFlag := .initialized, shouldBranchCached := some false } ∨
    c.initializationFlag = .lazy ∧ c.initializer c.initializerCalls = none ∧ c.shouldBranch.2 =
      { c with
        shouldBranchCached := some false
        initializationFlag := .initialized
        initializerCalls := c.initializerCalls + 1 } ∨
    (∃ args, c.initializationFlag = .lazy ∧ c.initializer c.initializerCalls = some args ∧
      c.shouldBranch.2 = { c with
        arguments := some args
        initializationFlag := .initialized
        shouldBranchCached := some true
        initializerCalls := c.initializerCalls + 1 }) ∨
    c.initializationFlag ≠ .lazy ∧ c.shouldBranch.2 =
      { c with shouldBranchCached := some true } := by
  rw [NodeCore.shouldBranch, h]
  split
  · rename_i hNone
    cases hNone
  · split
    · exact Or.inl rfl
    · exact Or.inl rfl
    · exact Or.inl rfl
    · split
      · rename_i hFlag
        split
        · rename_i hDeclined
          exact Or.inr (Or.inl ⟨hFlag, hDeclined, rfl⟩)
        · rename_i args hAnswer
          exact Or.inr (Or.inr (Or.inl ⟨args, hFlag, hAnswer, rfl⟩))
      · rename_i hFlag
        exact Or.inr (Or.inr (Or.inr ⟨hFlag, rfl⟩))

namespace Sound

theorem explicitly (args : α) (s d : Bool) : (ArgumentNode.explicitly args s d).Sound where
  ready _ h := by cases h
  declined h := by cases h
  deserialized h := by cases h
  asking h := by cases h
  stored a h := by
    cases h
    exact Or.inl (List.mem_singleton_self args)
  once i h := absurd h (Nat.not_lt_zero _)
  queued h := absurd h (Nat.not_lt_zero _)

theorem lazily (initializer : ℕ → Option α) (s d : Bool) :
    (ArgumentNode.lazily initializer s d).Sound where
  ready h := by cases h
  declined h := by cases h
  deserialized h := by cases h
  asking _ i h := absurd h (Nat.not_lt_zero i)
  stored a h := by cases h
  once i h := absurd h (Nat.not_lt_zero _)
  queued h := absurd h (Nat.not_lt_zero _)

theorem placeholder (s d : Bool) : (ArgumentNode.placeholder s d : ArgumentNode α).Sound where
  ready h := by cases h
  declined h := by cases h
  deserialized h := by cases h
  asking h := by cases h
  stored a h := by cases h
  once i h := absurd h (Nat.not_lt_zero _)
  queued h := absurd h (Nat.not_lt_zero _)

theorem initial (h : calls.initial n) : n.Sound ∧ n.Lawful := by
  have hLawful : n.Sound → n.applied = [] → n.Lawful := by
    intro hSound hApplied
    refine ⟨fun x hx => ?_, hSound.once⟩
    rw [hApplied] at hx
    exact absurd hx List.not_mem_nil
  obtain ⟨args, s, d, rfl⟩ | ⟨initializer, s, d, rfl⟩ | ⟨s, d, rfl⟩ := h
  · exact ⟨explicitly args s d, hLawful (explicitly args s d) rfl⟩
  · exact ⟨lazily initializer s d, hLawful (lazily initializer s d) rfl⟩
  · exact ⟨placeholder s d, hLawful (placeholder s d) rfl⟩

theorem obtained_next (h : n.initializer n.initializerCalls = some a)
    (hCalls : m.initializerCalls = n.initializerCalls + 1)
    (hInitializer : m.initializer = n.initializer) : m.Obtained a := by
  refine Or.inr ⟨n.initializerCalls, ?_, ?_⟩
  · rw [hCalls]
    exact Nat.lt_succ_self _
  · rw [hInitializer, h]

theorem keeps_of_le (hApplied : m.applied = n.applied) (hGiven : m.given = n.given)
    (hInitializer : m.initializer = n.initializer)
    (hCalls : n.initializerCalls ≤ m.initializerCalls) : n.Keeps m := by
  refine ⟨hApplied, fun a ha => ?_⟩
  obtain ha | ⟨i, hi, ha⟩ := ha
  · exact Or.inl (by rwa [hGiven])
  · exact Or.inr ⟨i, Nat.lt_of_lt_of_le hi hCalls, by rw [hInitializer, ha]⟩

/-- As long as the node asks, every call so far was declined, and the next one may succeed. -/
theorem once_next (h : n.Sound) (hFlag : n.initializationFlag = .lazy) :
    ∀ i, i + 1 < n.initializerCalls + 1 → n.initializer i = none :=
  fun i hi => h.asking hFlag i (Nat.lt_of_succ_lt_succ hi)

theorem not_queued (h : n.Sound) (hFlag : n.initializationFlag = .lazy) :
    ¬ 0 < n.invocations := by
  intro hQueued
  obtain hReady | hReady := h.queued hQueued
  · rw [hFlag] at hReady
    cases hReady
  · rw [hFlag] at hReady
    cases hReady

theorem declines (h : n.Sound) (hFlag : n.initializationFlag = .lazy) :
    ({ n with
      shouldBranchCached := some false
      initializationFlag := .initialized
      initializerCalls := n.initializerCalls + 1 } : ArgumentNode α).Sound where
  ready _ _ := rfl
  declined _ _ := rfl
  deserialized h := by cases h
  asking h := by cases h
  stored a ha := by
    obtain ha | ⟨i, hi, ha⟩ := h.stored a ha
    · exact Or.inl ha
    · exact Or.inr ⟨i, Nat.lt_succ_of_lt hi, ha⟩
  once := h.once_next hFlag
  queued hQueued := absurd hQueued (h.not_queued hFlag)

theorem answers (h : n.Sound) (hFlag : n.initializationFlag = .lazy)
    (hAnswer : n.initializer n.initializerCalls = some a) (cached : Option Bool) :
    ({ n with
      arguments := some a
      initializationFlag := .initialized
      shouldBranchCached := cached
      initializerCalls := n.initializerCalls + 1 } : ArgumentNode α).Sound where
  ready _ h := by cases h
  declined _ h := by cases h
  deserialized h := by cases h
  asking h := by cases h
  stored b hb := by
    cases hb
    exact obtained_next hAnswer rfl rfl
  once := h.once_next hFlag
  queued hQueued := absurd hQueued (h.not_queued hFlag)

theorem shouldBranch (h : n.Sound) :
    let m : ArgumentNode α := { n with toNodeCore := n.toNodeCore.shouldBranch.2 }
    m.Sound ∧ n.Keeps m := by
  intro m
  cases hCached : n.shouldBranchCached with
  | some cached =>
    have hSame : n.toNodeCore.shouldBranch.2 = n.toNodeCore := by
      rw [NodeCore.shouldBranch, hCached]
    have hm : m = n := by
      simp only [m, hSame]
    rw [hm]
    exact ⟨h, rfl, fun _ ha => ha⟩
  | none =>
    rcases shouldBranch_cases n.toNodeCore hCached with hResult | ⟨hFlag, -, hResult⟩ |
      ⟨args, hFlag, hAnswer, hResult⟩ | ⟨hFlag, hResult⟩
    · simp only [m, hResult]
      refine ⟨⟨fun _ _ => rfl, fun _ _ => rfl, fun h => ?_, fun h => ?_, h.stored, h.once,
        fun _ => Or.inl rfl⟩, keeps_of_le rfl rfl rfl (Nat.le_refl _)⟩
      · cases h
      · cases h
    · simp only [m, hResult]
      exact ⟨h.declines hFlag, keeps_of_le rfl rfl rfl (Nat.le_succ _)⟩
    · simp only [m, hResult]
      exact ⟨h.answers hFlag hAnswer _, keeps_of_le rfl rfl rfl (Nat.le_succ _)⟩
    · simp only [m, hResult]
      refine ⟨⟨fun hInit hNone => ?_, fun h => ?_, h.deserialized, h.asking, h.stored, h.once,
        h.queued⟩, keeps_of_le rfl rfl rfl (Nat.le_refl _)⟩
      · have hFalse := h.ready hInit hNone
        rw [hCached] at hFalse
        cases hFalse
      · cases h

/-- What follows `ensure_args_initialized` finds arguments, unless the node is unready. -/
theorem ensureArgsInitialized (h : n.Sound) :
    (∃ e m, n.ensureArgsInitialized = .error e m ∧ m.Sound ∧ n.Keeps m ∧ ¬ n.Unready) ∨
    ∃ m, n.ensureArgsInitialized = .ok () m ∧ m.Sound ∧ n.Keeps m ∧ (m.Unready ↔ n.Unready) ∧
      (m.initializationFlag = .initialized ∨ m.initializationFlag = .deserialized) ∧
      m.argsSerializer = n.argsSerializer := by
  have hUnready : n.initializationFlag ≠ .initialized → ¬ n.Unready :=
    fun hFlag hUnready => hFlag (h.declined hUnready.1 hUnready.2)
  cases hFlag : n.initializationFlag with
  | uninitialized =>
    refine Or.inl ⟨_, n, ensureArgs_uninitialized hFlag, h,
      keeps_of_le rfl rfl rfl (Nat.le_refl _), hUnready ?_⟩
    rw [hFlag]
    exact fun he => by cases he
  | lazy =>
    have hAsking : ¬ n.Unready := by
      apply hUnready
      rw [hFlag]
      exact fun he => by cases he
    cases hAnswer : n.initializer n.initializerCalls with
    | none =>
      refine Or.inl ⟨_, _, ensureArgs_declined hFlag hAnswer, ⟨h.ready, h.declined,
        h.deserialized, fun _ i hi => ?_, fun a ha => ?_, h.once_next hFlag, h.queued⟩,
        keeps_of_le rfl rfl rfl (Nat.le_succ _), hAsking⟩
      · obtain hi | rfl := Nat.lt_succ_iff_lt_or_eq.mp hi
        · exact h.asking hFlag i hi
        · exact hAnswer
      · obtain ha | ⟨i, hi, ha⟩ := h.stored a ha
        · exact Or.inl ha
        · exact Or.inr ⟨i, Nat.lt_succ_of_lt hi, ha⟩
    | some args =>
      refine Or.inr ⟨_, ensureArgs_answered hFlag hAnswer,
        h.answers hFlag hAnswer n.shouldBranchCached,
        keeps_of_le rfl rfl rfl (Nat.le_succ _), iff_of_false ?_ hAsking, Or.inl rfl, rfl⟩
      rintro ⟨-, hNone⟩
      cases hNone
  | initialized =>
    exact Or.inr ⟨n, ensureArgs_ready (Or.inl hFlag), h, keeps_of_le rfl rfl rfl (Nat.le_refl _),
      Iff.rfl, Or.inl hFlag, rfl⟩
  | deserialized =>
    exact Or.inr ⟨n, ensureArgs_ready (Or.inr hFlag), h, keeps_of_le rfl rfl rfl (Nat.le_refl _),
      Iff.rfl, Or.inr hFlag, rfl⟩

end Sound

/-! ## A call keeps the law exactly when it spares unready nodes -/

/-- `l` leads from `n` to `m` and keeps the law exactly when it spares `n`. -/
def Judges (n m : ArgumentNode α) (l : NodeCall α) : Prop :=
  m.Sound ∧ (n.Lawful → (m.Lawful ↔ n.Spares l))

theorem Sound.judges_of_keeps (hm : m.Sound) (hKeeps : n.Keeps m)
    (hSpares : n.Spares l) : n.Judges m l :=
  ⟨hm, fun hn => iff_of_true (hn.keeps hm hKeeps) hSpares⟩

/-- `m` and `m'` agree on all that decides which arguments there are. -/
structure SameArguments (m m' : ArgumentNode α) : Prop where
  initializationFlag : m'.initializationFlag = m.initializationFlag
  arguments : m'.arguments = m.arguments
  shouldBranchCached : m'.shouldBranchCached = m.shouldBranchCached
  initializer : m'.initializer = m.initializer
  initializerCalls : m'.initializerCalls = m.initializerCalls
  given : m'.given = m.given

theorem SameArguments.obtained_iff {m' : ArgumentNode α} (h : m.SameArguments m') (a : α) :
    m'.Obtained a ↔ m.Obtained a := by
  rw [Obtained, Obtained, h.given, h.initializer, h.initializerCalls]

theorem Sound.same {m' : ArgumentNode α} (hm : m.Sound) (h : m.SameArguments m')
    (hQueued : 0 < m'.invocations →
      m.initializationFlag = .initialized ∨ m.initializationFlag = .deserialized) : m'.Sound where
  ready := by
    rw [h.initializationFlag, h.arguments, h.shouldBranchCached]
    exact hm.ready
  declined := by
    rw [h.initializationFlag, h.arguments, h.shouldBranchCached]
    exact hm.declined
  deserialized := by
    rw [h.initializationFlag, h.arguments]
    exact hm.deserialized
  asking := by
    rw [h.initializationFlag, h.initializer, h.initializerCalls]
    exact hm.asking
  stored a ha := by
    rw [h.obtained_iff]
    rw [h.arguments] at ha
    exact hm.stored a ha
  once := by
    rw [h.initializer, h.initializerCalls]
    exact hm.once
  queued := by
    rw [h.initializationFlag]
    exact hQueued

theorem Sound.judges_of_applies {m' : ArgumentNode α} (hm : m.Sound) (hKeeps : n.Keeps m)
    (hUnready : m.Unready ↔ n.Unready)
    (hFlag : m.initializationFlag = .initialized ∨ m.initializationFlag = .deserialized)
    (hApplies : n.Applies l) (hSame : m.SameArguments m')
    (hApplied : m'.applied = m.arguments :: m.applied) : n.Judges m' l := by
  have hm' : m'.Sound := hm.same hSame fun _ => hFlag
  refine ⟨hm', fun hn => ?_⟩
  have hArguments : m.arguments = none → m.Unready := by
    intro hNone
    obtain hFlag | hFlag := hFlag
    · exact ⟨hm.ready hFlag hNone, hNone⟩
    · exact absurd hNone (hm.deserialized hFlag)
  constructor
  · intro hLawful _ hn'
    have hHead : m.arguments ∈ m'.applied := by
      rw [hApplied]
      exact List.mem_cons_self
    obtain ⟨a, ha, -⟩ := hLawful.applied _ hHead
    rw [(hUnready.mpr hn').2] at ha
    cases ha
  · intro hSpares
    refine ⟨fun x hx => ?_, hm'.once⟩
    rw [hApplied] at hx
    obtain rfl | hx := List.mem_cons.mp hx
    · cases hStored : m.arguments with
      | none => exact absurd (hUnready.mp (hArguments hStored)) (hSpares hApplies)
      | some a => exact ⟨a, rfl, (hSame.obtained_iff a).mpr (hm.stored a hStored)⟩
    · obtain ⟨a, rfl, ha⟩ := (hn.keeps hm hKeeps).applied x hx
      exact ⟨a, rfl, (hSame.obtained_iff a).mpr ha⟩

/-- The serializer is reached, or a test of the flag or of the serializer stops the call. -/
theorem serialize_cases (n : ArgumentNode α) (returns : Bool) :
    (∃ e, n.serialize returns = .error (.member e) n ∧ (n.argsSerializer = true →
      n.initializationFlag ≠ .initialized ∧ n.initializationFlag ≠ .deserialized)) ∨
    n.serialize returns = n.applyTo returns ∧ n.argsSerializer = true ∧
      (n.initializationFlag = .initialized ∨ n.initializationFlag = .deserialized) := by
  rw [serialize, NodeCore.serialize]
  cases hFlag : n.initializationFlag with
  | uninitialized => exact Or.inl ⟨_, rfl, fun _ => ⟨by decide, by decide⟩⟩
  | lazy => exact Or.inl ⟨_, rfl, fun _ => ⟨by decide, by decide⟩⟩
  | initialized =>
    cases hSerializer : n.argsSerializer with
    | false => exact Or.inl ⟨_, rfl, fun he => by cases he⟩
    | true => exact Or.inr ⟨rfl, rfl, Or.inl rfl⟩
  | deserialized =>
    cases hSerializer : n.argsSerializer with
    | false => exact Or.inl ⟨_, rfl, fun he => by cases he⟩
    | true => exact Or.inr ⟨rfl, rfl, Or.inr rfl⟩

theorem Sound.step (h : n.Sound) (hStep : calls.step l n = .moved m) : n.Judges m l := by
  have hQuiet : n.Keeps n := ⟨rfl, fun _ ha => ha⟩
  cases l with
  | shouldBranch =>
    cases hStep
    exact h.shouldBranch.1.judges_of_keeps h.shouldBranch.2 fun hApplies => hApplies.elim
  | run returns =>
    cases hStep
    rw [ArgumentNode.run]
    split
    · rename_i hState
      exact h.judges_of_keeps hQuiet fun hUnused => absurd hUnused hState
    · rename_i hState
      rcases h.ensureArgsInitialized with ⟨e, m, hm, hSound, hKeeps, hUnready⟩ |
        ⟨m, hm, hSound, hKeeps, hUnready, hFlag, -⟩
      · rw [hm]
        exact hSound.judges_of_keeps hKeeps fun _ => hUnready
      · rw [hm]
        have hUnused : n.state = .unused := not_not.mp hState
        cases returns with
        | true =>
          exact hSound.judges_of_applies hKeeps hUnready hFlag hUnused
            ⟨rfl, rfl, rfl, rfl, rfl, rfl⟩ rfl
        | false =>
          exact hSound.judges_of_applies hKeeps hUnready hFlag hUnused
            ⟨rfl, rfl, rfl, rfl, rfl, rfl⟩ rfl
  | delegateLocally =>
    cases hStep
    rw [ArgumentNode.delegateLocally]
    split
    · exact h.judges_of_keeps hQuiet fun hApplies => hApplies.elim
    · rcases h.ensureArgsInitialized with ⟨e, m, hm, hSound, hKeeps, hUnready⟩ |
        ⟨m, hm, hSound, hKeeps, -, hFlag, -⟩
      · rw [hm]
        exact hSound.judges_of_keeps hKeeps fun _ => hUnready
      · rw [hm]
        have hPushed : (after (.ok () { m with
            invocations := m.invocations + 1, state := .pushed }) : ArgumentNode α).Sound :=
          hSound.same ⟨rfl, rfl, rfl, rfl, rfl, rfl⟩ fun _ => hFlag
        exact hPushed.judges_of_keeps ⟨hKeeps.applied, hKeeps.obtained⟩
          fun hApplies => hApplies.elim
  | invoke returns =>
    simp only [calls] at hStep
    split at hStep
    · rename_i hInvocations
      cases hStep
      have hFlag := h.queued hInvocations
      cases returns with
      | true =>
        exact h.judges_of_applies hQuiet Iff.rfl hFlag trivial ⟨rfl, rfl, rfl, rfl, rfl, rfl⟩ rfl
      | false =>
        exact h.judges_of_applies hQuiet Iff.rfl hFlag trivial ⟨rfl, rfl, rfl, rfl, rfl, rfl⟩ rfl
    · cases hStep
  | delegateRemotely returns pushes =>
    cases hStep
    rw [ArgumentNode.delegateRemotely]
    split
    · rename_i hState
      exact h.judges_of_keeps hQuiet fun hApplies => absurd hApplies.1 hState
    · rename_i hState
      rcases h.ensureArgsInitialized with ⟨e, m, hm, hSound, hKeeps, hUnready⟩ |
        ⟨m, hm, hSound, hKeeps, hUnready, hFlag, hSerializer⟩
      · rw [hm]
        exact hSound.judges_of_keeps hKeeps fun _ => hUnready
      · rw [hm]
        simp only
        obtain ⟨e, hError, hStopped⟩ | ⟨hOk, hSet, -⟩ := serialize_cases m returns
        · rw [hError]
          refine hSound.judges_of_keeps hKeeps fun hApplies => ?_
          obtain ⟨hInitialized, hDeserialized⟩ := hStopped (hSerializer.trans hApplies.2)
          exact absurd hFlag (not_or.mpr ⟨hInitialized, hDeserialized⟩)
        · rw [hOk]
          have hApplies : n.state = .unused ∧ n.argsSerializer = true :=
            ⟨not_not.mp hState, hSerializer.symm.trans hSet⟩
          cases returns with
          | true =>
            cases pushes with
            | true =>
              exact hSound.judges_of_applies hKeeps hUnready hFlag hApplies
                ⟨rfl, rfl, rfl, rfl, rfl, rfl⟩ rfl
            | false =>
              exact hSound.judges_of_applies hKeeps hUnready hFlag hApplies
                ⟨rfl, rfl, rfl, rfl, rfl, rfl⟩ rfl
          | false =>
            exact hSound.judges_of_applies hKeeps hUnready hFlag hApplies
              ⟨rfl, rfl, rfl, rfl, rfl, rfl⟩ rfl
  | serialize returns =>
    cases hStep
    obtain ⟨e, hError, hStopped⟩ | ⟨hOk, hSet, hFlag⟩ := serialize_cases n returns
    · rw [hError]
      refine h.judges_of_keeps hQuiet fun hSet hUnready => ?_
      exact (hStopped hSet).1 (h.declined hUnready.1 hUnready.2)
    · rw [hOk]
      cases returns with
      | true =>
        exact h.judges_of_applies hQuiet Iff.rfl hFlag hSet ⟨rfl, rfl, rfl, rfl, rfl, rfl⟩ rfl
      | false =>
        exact h.judges_of_applies hQuiet Iff.rfl hFlag hSet ⟨rfl, rfl, rfl, rfl, rfl, rfl⟩ rfl
  | deserialize args =>
    cases hStep
    simp only [ArgumentNode.deserialize]
    split
    · exact h.judges_of_keeps hQuiet fun hApplies => hApplies.elim
    · split
      · exact h.judges_of_keeps hQuiet fun hApplies => hApplies.elim
      · cases args with
        | none => exact h.judges_of_keeps hQuiet fun hApplies => hApplies.elim
        | some a =>
          have hKeeps : n.Keeps { n with
              arguments := some a, initializationFlag := .deserialized,
              given := a :: n.given } := by
            refine ⟨rfl, fun b hb => ?_⟩
            obtain hb | hb := hb
            · exact Or.inl (List.mem_cons_of_mem a hb)
            · exact Or.inr hb
          refine Sound.judges_of_keeps ?_ hKeeps fun hApplies => hApplies.elim
          refine ⟨fun he => ?_, fun _ he => ?_, fun _ he => ?_, fun he => ?_, fun b hb => ?_,
            h.once, fun _ => Or.inr rfl⟩
          · cases he
          · cases he
          · cases he
          · cases he
          · cases hb
            exact Or.inl List.mem_cons_self
  | setState s =>
    cases hStep
    have hSame : n.SameArguments { n with toNodeCore := n.toNodeCore.setState s } := by
      cases s <;> exact ⟨rfl, rfl, rfl, rfl, rfl, rfl⟩
    refine (h.same hSame h.queued).judges_of_keeps ⟨rfl, fun a ha => ?_⟩
      fun hApplies => hApplies.elim
    exact (hSame.obtained_iff a).mpr ha

/-- The user's code sees obtained arguments only, and the initializer is left alone once it has
succeeded, exactly when no call applies the code on a node that declined to branch without ever
having had arguments. -/
theorem lazy_law_iff {ls : List (NodeCall α)} (hInitial : calls.initial n)
    (hRun : calls.run ls n = some m) : calls.Stays Lawful ls n ↔ calls.Obeys Spares ls n := by
  obtain ⟨hSound, hLawful⟩ := Sound.initial hInitial
  exact Machine.stays_iff_obeys (fun _ _ _ h hStep => (h.step hStep).1)
    (fun _ _ _ h hLawful hStep => (h.step hStep).2 hLawful) hSound hLawful hRun

/-- A lazy node that is forwarded when it branches. -/
theorem lazy_law_iff_worthy : calls.Stays Lawful [.shouldBranch, .run true, .serialize true]
    (lazily (fun _ => some 7) true false) := by
  refine (lazy_law_iff (Or.inr (Or.inl ⟨_, _, _, rfl⟩)) rfl).mpr ?_
  have hReady : ∀ m : ArgumentNode ℕ, m.arguments = some 7 → ¬ m.Unready := by
    rintro m hm ⟨-, hNone⟩
    rw [hm] at hNone
    cases hNone
  refine ⟨fun hApplies => hApplies.elim, fun t ht => ?_⟩
  cases ht
  refine ⟨fun _ => hReady _ rfl, fun t ht => ?_⟩
  cases ht
  exact ⟨fun _ => hReady _ rfl, fun t ht => by cases ht; trivial⟩

/-- The initializer declines, and the node runs all the same. -/
theorem declined_runs :
    let n : ArgumentNode ℕ := lazily (fun _ => none) true false
    ∃ m, calls.run [.shouldBranch, .run true] n = some m ∧ m.applied = [none] ∧ ¬ m.Lawful := by
  intro n
  refine ⟨_, rfl, rfl, fun hLawful => ?_⟩
  obtain ⟨a, ha, -⟩ := hLawful.applied none List.mem_cons_self
  cases ha

end ArgumentNode

end Gempba
