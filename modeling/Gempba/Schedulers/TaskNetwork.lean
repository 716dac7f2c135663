import Gempba.Library.Diffusion
import Gempba.Schedulers.Messages
import Gempba.Schedulers.TerminationDetector

/-!
# Detectors, tasks and acknowledgements of all ranks

The handlers below are the ones both schedulers share. Messages in flight
are a multiset, so that they may be delivered in any order. The network is
read as a diffusing computation whose active processes are given from
outside: they are the workers that hold or execute a task.
-/

namespace Gempba

set_option autoImplicit false

structure TaskNetwork (W : World) where
  detector : Rank W → TerminationDetector (Rank W)
  tasks : Multiset (TaskMessage W)
  acks : Multiset (Acknowledgement W)

namespace TaskNetwork

variable {W : World}

def initial : TaskNetwork W := ⟨fun r => .make (r = W.center), 0, 0⟩

/-- `on_task_sent`, then the send of the task and its runnable id. -/
def sendTask (m : TaskMessage W) (n : TaskNetwork W) : TaskNetwork W :=
  { n with
    detector := Function.update n.detector m.source (n.detector m.source).onTaskSent
    tasks := m ::ₘ n.tasks }

def sendTaskAck (source destination : Rank W) (n : TaskNetwork W) : TaskNetwork W :=
  { n with acks := ⟨source, destination⟩ ::ₘ n.acks }

/-- The receipt of a task up to the acknowledgement that is due at once. -/
def receiveTask (m : TaskMessage W) (n : TaskNetwork W) : TaskNetwork W :=
  let (ack, d) := (n.detector m.destination).onTaskReceived m.source
  let n := { n with
    detector := Function.update n.detector m.destination d
    tasks := n.tasks.erase m }
  match ack with
  | some r => n.sendTaskAck m.destination r
  | none => n

/-- `none` is the throw on an unexpected acknowledgement. -/
def processTaskReceivedAck (a : Acknowledgement W) (n : TaskNetwork W) :
    Option (TaskNetwork W) :=
  let (expected, d) := (n.detector a.destination).onAckReceived
  if expected then
    some { n with
      detector := Function.update n.detector a.destination d
      acks := n.acks.erase a }
  else none

def releaseParentIfPassive (r : Rank W) (n : TaskNetwork W) : TaskNetwork W :=
  let (parent, d) := (n.detector r).onPassive
  let n := { n with detector := Function.update n.detector r d }
  match parent with
  | some p => n.sendTaskAck r p
  | none => n

def diffusion (A : Rank W → Prop) (n : TaskNetwork W) : Diffusion.State (Rank W) where
  parent r := (n.detector r).parent
  deficit r := (n.detector r).deficit
  active := A
  tasks := n.tasks.map fun m => (m.source, m.destination)
  acks := n.acks.map fun a => (a.source, a.destination)

/-- The handlers keep exactly the center marked as root, and the computation balanced. -/
structure Sound (A : Rank W → Prop) (n : TaskNetwork W) : Prop where
  root : ∀ r, (n.detector r).isRoot = true ↔ r = W.center
  balanced : Diffusion.Balanced W.center (n.diffusion A)

/-- No passive rank withholds the acknowledgement it owes its parent. -/
def Prompt (A : Rank W → Prop) (n : TaskNetwork W) : Prop :=
  ∀ r, ¬ A r → (n.detector r).parent ≠ none → (n.detector r).deficit ≠ 0

theorem update_apply_parent (n : TaskNetwork W) (r : Rank W) (d : TerminationDetector (Rank W)) :
    (fun x => (Function.update n.detector r d x).parent) =
      Function.update (fun x => (n.detector x).parent) r d.parent := by
  funext x
  by_cases hx : x = r <;> simp [Function.update, hx]

theorem update_apply_deficit (n : TaskNetwork W) (r : Rank W) (d : TerminationDetector (Rank W)) :
    (fun x => (Function.update n.detector r d x).deficit) =
      Function.update (fun x => (n.detector x).deficit) r d.deficit := by
  funext x
  by_cases hx : x = r <;> simp [Function.update, hx]

theorem root_update {n : TaskNetwork W} (h : ∀ r, (n.detector r).isRoot = true ↔ r = W.center)
    {x : Rank W} {d : TerminationDetector (Rank W)} (hd : d.isRoot = (n.detector x).isRoot)
    (r : Rank W) : (Function.update n.detector x d r).isRoot = true ↔ r = W.center := by
  by_cases hr : r = x
  · subst hr
    rw [Function.update_self, hd]
    exact h r
  · rw [Function.update_of_ne hr]
    exact h r

@[simp] theorem sendTask_tasks (m : TaskMessage W) (n : TaskNetwork W) :
    (n.sendTask m).tasks = m ::ₘ n.tasks := rfl

@[simp] theorem sendTask_acks (m : TaskMessage W) (n : TaskNetwork W) :
    (n.sendTask m).acks = n.acks := rfl

@[simp] theorem receiveTask_tasks (m : TaskMessage W) (n : TaskNetwork W) :
    (n.receiveTask m).tasks = n.tasks.erase m := by
  unfold receiveTask
  cases (n.detector m.destination).onTaskReceived m.source with
  | mk ack d => cases ack <;> rfl

@[simp] theorem releaseParentIfPassive_tasks (r : Rank W) (n : TaskNetwork W) :
    (n.releaseParentIfPassive r).tasks = n.tasks := by
  unfold releaseParentIfPassive
  cases (n.detector r).onPassive with
  | mk parent d => cases parent <;> rfl

theorem releaseParentIfPassive_detector (r : Rank W) (n : TaskNetwork W) :
    (n.releaseParentIfPassive r).detector =
      Function.update n.detector r (n.detector r).onPassive.2 := by
  unfold releaseParentIfPassive
  cases (n.detector r).onPassive with
  | mk parent d => cases parent <;> rfl

theorem receiveTask_detector (m : TaskMessage W) (n : TaskNetwork W) :
    (n.receiveTask m).detector = Function.update n.detector m.destination
      ((n.detector m.destination).onTaskReceived m.source).2 := by
  unfold receiveTask
  cases (n.detector m.destination).onTaskReceived m.source with
  | mk ack d => cases ack <;> rfl

theorem processTaskReceivedAck_eq_some {a : Acknowledgement W} {n n' : TaskNetwork W}
    (h : n.processTaskReceivedAck a = some n') :
    n' = { n with
      detector := Function.update n.detector a.destination
        (n.detector a.destination).onAckReceived.2
      acks := n.acks.erase a } := by
  unfold processTaskReceivedAck at h
  split at h
  split at h
  · rename_i hd _
    rw [hd]
    exact (Option.some.inj h).symm
  · cases h

theorem initial_sound {A : Rank W → Prop} (hA : ∀ r, r ≠ W.center → ¬ A r) :
    Sound A (initial : TaskNetwork W) where
  root r := by simp [initial, TerminationDetector.make]
  balanced :=
    { owed_eq := fun r => by
        simp [diffusion, initial, TerminationDetector.make, Diffusion.State.owed,
          Diffusion.children]
      root_free := rfl
      disengaged := fun r hr _ => ⟨rfl, hA r hr⟩
      ranked := ⟨fun _ => 0, fun q p h => by
        simp [diffusion, initial, TerminationDetector.make] at h⟩ }

namespace Sound

variable {A : Rank W → Prop} {n : TaskNetwork W}

theorem engaged (h : Sound A n) {r : Rank W} (hr : A r) :
    r = W.center ∨ (n.detector r).parent ≠ none := by
  by_cases hc : r = W.center
  · exact Or.inl hc
  · exact Or.inr fun hn => (h.balanced.disengaged r hc hn).2 hr

theorem sendTask (h : Sound A n) (m : TaskMessage W)
    (hm : m.source = W.center ∨ (n.detector m.source).parent ≠ none) :
    Sound A (n.sendTask m) where
  root := root_update h.root rfl
  balanced := by
    have hsend := h.balanced.send m.destination hm
    have heq : (n.sendTask m).diffusion A =
        (n.diffusion A).send m.source m.destination := by
      simp only [diffusion, TaskNetwork.sendTask, Diffusion.State.send, update_apply_parent,
        update_apply_deficit, Multiset.map_cons, TerminationDetector.onTaskSent]
      simp
    exact heq ▸ hsend

theorem receiveTask (h : Sound A n) {m : TaskMessage W} (hm : m ∈ n.tasks)
    {A' : Rank W → Prop} (hA : ∀ r, A' r → A r ∨ r = m.destination) :
    Sound A' (n.receiveTask m) where
  root := by
    rw [receiveTask_detector]
    exact root_update h.root (by simp)
  balanced := by
    have hmem : (m.source, m.destination) ∈ (n.diffusion A).tasks :=
      Multiset.mem_map.mpr ⟨m, hm, rfl⟩
    have herase : (n.tasks.erase m).map (fun m => (m.source, m.destination)) =
        ((n.diffusion A).tasks).erase (m.source, m.destination) :=
      Multiset.map_erase_of_mem _ _ hm
    have hroot := h.root m.destination
    by_cases hack : (n.detector m.destination).isRoot || (n.detector m.destination).parent.isSome
    · -- The receiver is the root or engaged: it acknowledges at once.
      have hrefuse := h.balanced.refuse hmem
      have heq : (n.receiveTask m).diffusion A' =
          ((n.diffusion A).refuse m.source m.destination).activate A' := by
        simp only [diffusion, TaskNetwork.receiveTask, TerminationDetector.onTaskReceived, hack,
          if_true, sendTaskAck, Function.update_eq_self, Multiset.map_cons, herase,
          Diffusion.State.refuse, Diffusion.State.activate]
      rw [heq]
      refine hrefuse.activate fun p hp hn hAp => ?_
      obtain hAp | rfl := hA p hAp
      · exact (h.balanced.disengaged p hp hn).2 hAp
      · have hn : (n.detector m.destination).parent = none := hn
        simp [hn, hroot, hp] at hack
    · have hfree : (n.detector m.destination).parent = none := by
        cases hp : (n.detector m.destination).parent <;> simp [hp] at hack ⊢
      have hne : m.destination ≠ W.center := by
        intro hc
        simp [hroot.mpr hc] at hack
      have hengage := h.balanced.engage hmem hne hfree
      have heq : (n.receiveTask m).diffusion A' =
          ((n.diffusion A).engage m.source m.destination).activate A' := by
        simp only [diffusion, TaskNetwork.receiveTask, TerminationDetector.onTaskReceived, hack,
          Bool.false_eq_true, if_false, update_apply_parent, update_apply_deficit, herase,
          Function.update_eq_self, Diffusion.State.engage, Diffusion.State.activate]
      rw [heq]
      refine hengage.activate fun p hp hn hAp => ?_
      by_cases hpd : p = m.destination
      · subst hpd
        simp [Diffusion.State.engage] at hn
      · have hn : (n.detector p).parent = none := by
          simpa [diffusion, Diffusion.State.engage, Function.update_of_ne hpd] using hn
        exact (h.balanced.disengaged p hp hn).2 ((hA p hAp).resolve_right hpd)

theorem ack_expected (h : Sound A n) {a : Acknowledgement W} (ha : a ∈ n.acks) :
    n.processTaskReceivedAck a ≠ none := by
  have hmem : (a.source, a.destination) ∈ (n.diffusion A).acks :=
    Multiset.mem_map.mpr ⟨a, ha, rfl⟩
  have hpos : 0 < (n.detector a.destination).deficit := h.balanced.deficit_pos_of_ack hmem
  unfold processTaskReceivedAck
  simp [(TerminationDetector.onAckReceived_fst _).mpr hpos]

theorem processTaskReceivedAck (h : Sound A n) {a : Acknowledgement W} {n' : TaskNetwork W}
    (ha : a ∈ n.acks) (hn : n.processTaskReceivedAck a = some n') : Sound A n' := by
  have hmem : (a.source, a.destination) ∈ (n.diffusion A).acks :=
    Multiset.mem_map.mpr ⟨a, ha, rfl⟩
  have herase : (n.acks.erase a).map (fun a => (a.source, a.destination)) =
      ((n.diffusion A).acks).erase (a.source, a.destination) :=
    Multiset.map_erase_of_mem _ _ ha
  cases processTaskReceivedAck_eq_some hn
  refine ⟨root_update h.root (by simp), ?_⟩
  have hcollect := h.balanced.collect hmem
  simp only [diffusion, update_apply_parent, update_apply_deficit, herase,
    TerminationDetector.onAckReceived_parent, TerminationDetector.onAckReceived_deficit,
    Function.update_eq_self]
  exact hcollect

theorem deactivate (h : Sound A n) {A' : Rank W → Prop} (hA : ∀ r, A' r → A r) : Sound A' n :=
  ⟨h.root, h.balanced.activate fun p hp hn hAp => (h.balanced.disengaged p hp hn).2 (hA p hAp)⟩

theorem releaseParentIfPassive (h : Sound A n) {r : Rank W} (hr : ¬ A r) :
    Sound A (n.releaseParentIfPassive r) where
  root := by
    rw [releaseParentIfPassive_detector]
    exact root_update h.root (by simp)
  balanced := by
    by_cases hpass : (n.detector r).deficit ≠ 0 || (n.detector r).parent.isNone
    · have heq : n.releaseParentIfPassive r = n := by
        simp only [TaskNetwork.releaseParentIfPassive, TerminationDetector.onPassive, hpass,
          if_true, Function.update_eq_self]
      rw [heq]
      exact h.balanced
    · have hdeficit : (n.detector r).deficit = 0 := by
        by_contra hne
        simp [hne] at hpass
      obtain ⟨p, hp⟩ : ∃ p, (n.detector r).parent = some p := by
        cases hp : (n.detector r).parent with
        | none => simp [hp] at hpass
        | some p => exact ⟨p, rfl⟩
      have hrelease := h.balanced.release hp hdeficit hr
      have hpassive := TerminationDetector.onPassive_of_passive hdeficit hp
      have heq : (n.releaseParentIfPassive r).diffusion A = (n.diffusion A).release r p := by
        simp only [diffusion, TaskNetwork.releaseParentIfPassive, hpassive, sendTaskAck,
          update_apply_parent, update_apply_deficit, Function.update_eq_self, Multiset.map_cons,
          Diffusion.State.release]
      rw [heq]
      exact hrelease

theorem quiet (h : Sound A n) (hd : (n.detector W.center).deficit = 0) :
    n.tasks = 0 ∧ n.acks = 0 ∧ (∀ r, (n.detector r).isQuiescent = true) ∧
      ∀ r, r ≠ W.center → ¬ A r := by
  have hquiet := h.balanced.quiet hd
  refine ⟨?_, ?_, fun r => ?_, hquiet.passive⟩
  · exact Multiset.map_eq_zero.mp hquiet.no_task
  · exact Multiset.map_eq_zero.mp hquiet.no_ack
  · exact (TerminationDetector.isQuiescent_iff _).mpr
      ⟨hquiet.deficit_zero r, hquiet.parent_none r⟩

theorem center_deficit_zero (h : Sound A n) (hp : Prompt A n) (ht : n.tasks = 0)
    (ha : n.acks = 0) (hA : ∀ r, r ≠ W.center → ¬ A r) :
    (n.detector W.center).deficit = 0 := by
  apply h.balanced.root_deficit_zero (by simp [diffusion, ht]) (by simp [diffusion, ha])
  intro r hr
  by_cases hc : r = W.center
  · exact absurd (hc ▸ h.balanced.root_free) hr
  · exact hp r (hA r hc) hr

end Sound

namespace Prompt

variable {A : Rank W → Prop} {n : TaskNetwork W}

theorem sendTask (h : Prompt A n) (m : TaskMessage W) : Prompt A (n.sendTask m) := by
  intro r hr
  by_cases hrm : r = m.source
  · subst hrm
    simp [TaskNetwork.sendTask, TerminationDetector.onTaskSent]
  · simpa [TaskNetwork.sendTask, Function.update_of_ne hrm] using h r hr

theorem receiveTask (h : Prompt A n) {m : TaskMessage W} {A' : Rank W → Prop}
    (hsub : ∀ r, r ≠ m.destination → A r → A' r)
    (hdest : A' m.destination ∨ (n.detector m.destination).isRoot = true ∧
      (n.detector m.destination).parent = none) : Prompt A' (n.receiveTask m) := by
  intro r hr
  rw [receiveTask_detector]
  by_cases hrm : r = m.destination
  · subst hrm
    obtain ⟨hroot, hnone⟩ := hdest.resolve_left hr
    simp [TerminationDetector.onTaskReceived, hroot, hnone]
  · rw [Function.update_of_ne hrm]
    exact h r fun hAr => hr (hsub r hrm hAr)

/-- Collecting an acknowledgement may leave its receiver, and only it, ready to release. -/
theorem processTaskReceivedAck (h : Prompt A n) {a : Acknowledgement W} {n' : TaskNetwork W}
    (hn : n.processTaskReceivedAck a = some n') (r : Rank W) (hra : r ≠ a.destination)
    (hr : ¬ A r) (hp : (n'.detector r).parent ≠ none) : (n'.detector r).deficit ≠ 0 := by
  cases processTaskReceivedAck_eq_some hn
  simp only [Function.update_of_ne hra] at hp ⊢
  exact h r hr hp

theorem releaseParentIfPassive {r : Rank W}
    (h : ∀ x, x ≠ r → ¬ A x → (n.detector x).parent ≠ none → (n.detector x).deficit ≠ 0) :
    Prompt A (n.releaseParentIfPassive r) := by
  intro x hx
  rw [releaseParentIfPassive_detector]
  by_cases hxr : x = r
  · subst hxr
    rw [Function.update_self]
    exact TerminationDetector.onPassive_engaged _
  · rw [Function.update_of_ne hxr]
    exact h x hxr hx

end Prompt

end TaskNetwork

end Gempba
