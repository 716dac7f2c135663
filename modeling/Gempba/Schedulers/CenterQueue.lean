import Gempba.Library.SignedInt
import Gempba.Schedulers.Messages
import Mathlib.Order.RelClasses

/-!
# The order of the queue of the center

A bundle weighs the one bits of its packet and of the low byte of its runnable
id. The count is an `int`.
-/

namespace Gempba

set_option autoImplicit false

/-- The count for one `char`, taken as an unsigned byte. -/
def getNbSetBitsOfChar (c : UInt8) : ℕ :=
  ((c.toUInt64 * 0o1001001001 &&& 0o42104210421) % 0o17).toNat

def getNbSetBitsOfPacket (packet : TaskPacket) : ℤ :=
  packet.foldl (fun nb byte => SignedInt.wrap (nb + getNbSetBitsOfChar byte)) 0

def getNbSetBits (bundle : TaskBundle) : ℤ :=
  SignedInt.wrap
    (getNbSetBitsOfPacket bundle.packet + getNbSetBitsOfChar (UInt8.ofInt bundle.runnableId))

def taskBundleComparator (bundle1 bundle2 : TaskBundle) : Bool :=
  getNbSetBits bundle1 ≤ getNbSetBits bundle2

/-! The bits themselves. -/

def ones (c : UInt8) : ℕ := (List.range 8).countP fun i => c.toNat.testBit i

/-- The one bits of the packet and of the low byte of the id. -/
def TaskBundle.weight (bundle : TaskBundle) : ℕ :=
  (bundle.packet.map ones).sum + ones (UInt8.ofInt bundle.runnableId)

theorem getNbSetBitsOfChar_eq (c : UInt8) : getNbSetBitsOfChar c = ones c := by
  have htable : ∀ n : Fin 256, getNbSetBitsOfChar (UInt8.ofNat n) = ones (UInt8.ofNat n) := by
    decide +kernel
  have hc := htable ⟨c.toNat, c.toNat_lt⟩
  rw [UInt8.ofNat_toNat] at hc
  exact hc

theorem foldl_wrap (packet : TaskPacket) (z : ℤ) :
    packet.foldl (fun nb byte => SignedInt.wrap (nb + getNbSetBitsOfChar byte))
      (SignedInt.wrap z) = SignedInt.wrap (z + (packet.map ones).sum) := by
  induction packet generalizing z with
  | nil =>
    rw [List.foldl_nil, List.map_nil, List.sum_nil]
    exact congrArg SignedInt.wrap (add_zero z).symm
  | cons byte packet ih =>
    rw [List.foldl_cons, SignedInt.wrap_wrap_add, ih, List.map_cons, List.sum_cons,
      getNbSetBitsOfChar_eq, Nat.cast_add, add_assoc]

theorem getNbSetBits_eq (bundle : TaskBundle) :
    getNbSetBits bundle = SignedInt.wrap bundle.weight := by
  have hzero : SignedInt.wrap 0 = 0 := by decide
  have hpacket : getNbSetBitsOfPacket bundle.packet =
      SignedInt.wrap (bundle.packet.map ones).sum := by
    have hfold := foldl_wrap bundle.packet 0
    rw [hzero, zero_add] at hfold
    exact hfold
  rw [getNbSetBits, hpacket, SignedInt.wrap_wrap_add, getNbSetBitsOfChar_eq, TaskBundle.weight,
    Nat.cast_add]

theorem taskBundleComparator_iff {a b : TaskBundle} :
    taskBundleComparator a b = true ↔ getNbSetBits a ≤ getNbSetBits b :=
  decide_eq_true_iff

/-- The relation that the queue takes for a strict order, on the bundles it holds. -/
def QueueOrder (bundles : Set TaskBundle) (a b : bundles) : Prop :=
  taskBundleComparator a b = true

theorem taskBundleComparator_self (a : TaskBundle) : taskBundleComparator a a = true :=
  taskBundleComparator_iff.mpr (le_refl _)

/-- No bundle may be in the queue. -/
theorem isStrictWeakOrder_iff (bundles : Set TaskBundle) :
    IsStrictWeakOrder bundles (QueueOrder bundles) ↔ bundles = ∅ := by
  constructor
  · intro horder
    rw [Set.eq_empty_iff_forall_notMem]
    intro a ha
    exact horder.irrefl ⟨a, ha⟩ (taskBundleComparator_self a)
  · rintro rfl
    exact {
      irrefl := fun a => a.property.elim
      trans := fun a => a.property.elim
      incomp_trans := fun a => a.property.elim }

/-- The count is right below `2 ^ 31`; by the count the comparator is a total preorder, the strict
order only between bundles of different counts, and never the one that the queue requires. -/
theorem centerQueue_order (a b : TaskBundle) (bundles : Set TaskBundle) :
    (getNbSetBits a = a.weight ↔ a.weight < 2 ^ 31) ∧
    (taskBundleComparator a b = true ↔ getNbSetBits a ≤ getNbSetBits b) ∧
    ((taskBundleComparator a b = true ↔ getNbSetBits a < getNbSetBits b) ↔
      getNbSetBits a ≠ getNbSetBits b) ∧
    (IsStrictWeakOrder bundles (QueueOrder bundles) ↔ bundles = ∅) := by
  refine ⟨?_, taskBundleComparator_iff, ?_, isStrictWeakOrder_iff bundles⟩
  · rw [getNbSetBits_eq]
    exact SignedInt.wrap_eq_self_iff
  · rw [taskBundleComparator_iff]
    constructor
    · intro hstrict heq
      have hlt := hstrict.mp heq.le
      exact hlt.ne heq
    · intro hne
      exact ⟨fun hle => lt_of_le_of_ne hle hne, le_of_lt⟩

/-- A bundle is put before itself. -/
theorem taskBundleComparator_reflexive : ¬ ((∀ bundle, getNbSetBits bundle = bundle.weight) ∧
    (∀ a b, taskBundleComparator a b = true ↔ getNbSetBits a < getNbSetBits b) ∧
    IsStrictWeakOrder TaskBundle fun a b => taskBundleComparator a b = true) := by
  rintro ⟨_, _, horder⟩
  exact horder.irrefl ⟨[0xAA], 5⟩ (taskBundleComparator_self _)

end Gempba
