import Mathlib.Data.List.Perm.Basic
import Gempba.Library.Machine
import Gempba.LoadBalancing.Exploring

/-!
# The balancer of a process

The calls that start a tree of their own arrive one after the other: from
outside, or as tasks of the thread pool. The initial states leave open what
the lock, the pool and the channel will ever answer.
-/

namespace Gempba

set_option autoImplicit false

open Transition

namespace Balancer

/-- A call without a parent node on a thread, or a thread that takes a task of the pool. -/
inductive Event where
  | call (t : ThreadId) (c : Call)
  | task (t : ThreadId) (i : ℕ)

/-- The user's function on thread `t`. -/
def function (t : ThreadId) : Body := fun c parent b => explore c.depth t c parent b

def takeTask (b : Balancer) (t : ThreadId) (i : ℕ) : Outcome Throw Balancer :=
  match b.threadPool[i]? with
  | none => .blocked
  | some n =>
    match invoke (function t) { b with threadPool := b.threadPool.eraseIdx i } n true with
    | .ok b => .moved b
    | .error e => .raised e

def process : Machine Balancer Event Throw where
  initial b := ∃ answers worker, b = { answers, schedulerWorker := worker }
  step
    | .call t c, b =>
      match function t c none b with
      | .ok b => .moved b
      | .error e => .raised e
    | .task t i, b => b.takeTask t i

/-- The calls from outside are admissible. -/
def Admits (wide : Bool) (b : Balancer) : Event → Prop
  | .call _ c => c.Admissible wide b.schedulerWorker
  | .task _ _ => True

variable {wide : Bool} {b b' : Balancer} {t : ThreadId} {n : NodeId} {c : Call} {i : ℕ}

theorem Idle.initial (h : process.initial b) : b.Idle wide := by
  obtain ⟨answers, worker, rfl⟩ := h
  refine ⟨(by rintro _ ⟨⟩), ?_, (by rintro _ ⟨⟩), (by rintro _ ⟨⟩), (by rintro _ ⟨⟩),
    (by rintro _ ⟨⟩), (by rintro _ ⟨⟩), fun _ => rfl⟩
  intro n hPos hCreated
  exact absurd hCreated (Nat.not_le_of_gt hPos)

theorem Idle.take (h : b.Idle wide) (hn : b.threadPool[i]? = some n) :
    Idle wide { b with threadPool := b.threadPool.eraseIdx i, executed := n :: b.executed } := by
  obtain ⟨hi, hGet⟩ := List.getElem?_eq_some_iff.mp hn
  have hPerm : (n :: b.executed ++ b.threadPool.eraseIdx i).Perm (b.executed ++ b.threadPool) := by
    have hSplit := List.getElem_cons_eraseIdx_perm hi
    rw [hGet] at hSplit
    exact List.perm_middle.symm.trans (hSplit.append_left _)
  have hSub : ∀ m, m ∈ b.threadPool.eraseIdx i → m ∈ b.threadPool :=
    fun m hm => List.mem_of_mem_eraseIdx hm
  refine ⟨(by rintro _ ⟨⟩), ?_, h.running, ?_, ?_, h.picks, h.handouts, h.defensive⟩
  · intro m hPos hCreated
    obtain hDummy | hWait | ⟨fate, hFate⟩ := h.settled m hPos hCreated
    · exact .inl hDummy
    · exact .inr (.inl hWait)
    · refine .inr (.inr ⟨fate, hFate.once, hFate.cached, ?_, fun hm => hFate.pooled (hSub m hm)⟩)
      rw [hPerm.count_eq m]
      exact hFate.executions
  · intro m hm
    apply h.recorded m
    rw [List.append_assoc] at hm ⊢
    obtain hm | hm := List.mem_append.mp hm
    · exact List.mem_append_left _ hm
    · exact List.mem_append_right _ (hPerm.mem_iff.mp hm)
  · intro m hm
    exact h.pool m (hSub m hm)

theorem Idle.step (h : b.Idle wide) {e : Event} (he : Admits wide b e) :
    process.step e b = .blocked ∨ ∃ b', process.step e b = .moved b' ∧ b'.Idle wide := by
  cases e with
  | call t c =>
    obtain ⟨b', hOk, hIdle⟩ := h.explore (t := t) he (Nat.le_refl _)
    refine .inr ⟨b', ?_, hIdle⟩
    have hFunction : function t c none b = .ok b' := hOk
    simp only [process, hFunction]
  | task t i =>
    change takeTask b t i = _ ∨ ∃ b', takeTask b t i = _ ∧ _
    rw [takeTask]
    cases hn : b.threadPool[i]? with
    | none => exact .inl rfl
    | some n =>
      obtain ⟨c, hArguments, hc⟩ := h.pool n (List.mem_of_getElem? hn)
      obtain ⟨b', hOk, hIdle⟩ := (h.take hn).explore (t := t) hc (Nat.le_refl _)
      refine .inr ⟨b', ?_, hIdle⟩
      have hStored : ({ b with threadPool := b.threadPool.eraseIdx i }.node n).arguments =
          some c := hArguments
      have hInvoke : invoke (function t) { b with threadPool := b.threadPool.eraseIdx i } n true =
          .ok b' := (invoke_eq hStored true).trans hOk
      simp only [hInvoke]

theorem idle_of_reachable (h : process.ReachableWhere (Admits wide) b) : b.Idle wide := by
  refine h.invariant (fun _ => Idle.initial) ?_
  intro b e b' _ hIdle he hStep
  obtain hBlocked | ⟨b'', hMoved, hIdle'⟩ := hIdle.step he
  · rw [hBlocked] at hStep
    cases hStep
  · rw [hMoved] at hStep
    cases hStep
    exact hIdle'

/-- Whatever the answers, every node that was created for a call has met exactly one fate, and
the next admissible call or task does not throw. -/
theorem exactlyOnce (h : process.ReachableWhere (Admits false) b) :
    (∀ n, 0 < n → n ≤ b.uniqueIdCounter → (b.node n).isDummy = false →
      ∃ fate, b.Settled n fate) ∧
    (∀ p ∈ b.picks, p.state = .unused ∧ p.isDummy = false ∧ p.isRunning = false) ∧
    ∀ e, Admits false b e → ∀ throw, process.step e b ≠ .raised throw := by
  have hIdle := idle_of_reachable h
  refine ⟨?_, hIdle.picks, ?_⟩
  · intro n hPos hCreated hDummy
    obtain hDummy' | hWait | hFate := hIdle.settled n hPos hCreated
    · rw [hDummy] at hDummy'
      cases hDummy'
    · cases hWait
    · exact hFate
  · intro e he throw hRaised
    obtain hBlocked | ⟨b', hMoved, -⟩ := hIdle.step he
    · rw [hBlocked] at hRaised
      cases hRaised
    · rw [hMoved] at hRaised
      cases hRaised

instance (wide worker : Bool) (c : Call) : Decidable (c.Admissible wide worker) :=
  decidable_of_iff (c.Fits worker ∧ c.submitsFirst = true ∧ (wide = true → c.branches = true))
    ⟨fun ⟨hFits, hFirst, hBranches⟩ => ⟨hFits, hFirst, hBranches⟩,
      fun h => ⟨h.fits, h.submitsFirst, h.branches⟩⟩

instance (wide : Bool) (b : Balancer) : ∀ e, Decidable (Admits wide b e)
  | .call _ c => inferInstanceAs (Decidable (c.Admissible wide b.schedulerWorker))
  | .task _ _ => .isTrue trivial

/-- A call whose first child branches and pushes the other two. -/
def threeBranches : Call :=
  let leaf (s : Submission) := Call.mk (.createExplicitNode false) s []
  let pair := Call.mk (.createExplicitNode false) .tryLocalSubmit
    [leaf .tryLocalSubmit, leaf .forward]
  .mk (.createExplicitNode false) .forward [pair, leaf .forward, leaf .forward]

def threeBranchesRun : List Event := [.call 0 threeBranches, .task 1 0, .task 1 1]

/-- The first lock is not taken. -/
def secondLock : Balancer := { answers := fun i => i != 0 }

theorem threeBranches_runs : (process.run threeBranchesRun secondLock).isSome = true := by
  decide

theorem exactlyOnce_threeBranches :
    let b := (process.run threeBranchesRun secondLock).get threeBranches_runs
    ∃ fate, b.Settled 4 fate :=
  (exactlyOnce (Machine.ReachableWhere.run (.start ⟨_, false, rfl⟩)
    (Option.some_get _).symm (by decide))).1 4 (by decide) (by decide) (by decide)

/-- When every call branches into no child or into several, what a thread hands out is pending
and of minimal depth, and the root always has two children when one is picked. -/
theorem shallowestFirst (h : process.ReachableWhere (Admits true) b) :
    (∀ h ∈ b.handouts, h.isPending = true ∧ ∀ d ∈ h.pendingDepths, h.depth ≤ d) ∧
      b.defensiveReturns = 0 := by
  have hIdle := idle_of_reachable h
  refine ⟨?_, hIdle.defensive rfl⟩
  intro e he
  obtain ⟨hPending, hDepth⟩ := hIdle.handouts e he
  exact ⟨hPending, hDepth rfl⟩

theorem shallowestFirst_threeBranches :
    ((process.run threeBranchesRun secondLock).get threeBranches_runs).defensiveReturns = 0 :=
  (shallowestFirst (Machine.ReachableWhere.run (.start ⟨_, false, rfl⟩)
    (Option.some_get _).symm (by decide))).2

end Balancer

end Gempba
