import Mathlib.Data.List.Count
import Gempba.LoadBalancing.QuasiHorizontal

/-!
# The ledger of a balancer

Every node created for a call either waits or has met exactly one fate. The
nodes that wait are given by a predicate; the tree of the thread says which
they are. `far` tells whether nodes may be sent to other processes, `wide`
whether every call branches into no child or into several.
-/

namespace Gempba

set_option autoImplicit false

open NodeCore

variable {far wide : Bool}

namespace Call

/-- What a balancer may be given to run. -/
structure Admissible (wide worker : Bool) (c : Call) : Prop where
  fits : c.Fits worker
  submitsFirst : c.submitsFirst = true
  branches : wide = true → c.branches = true

/-- An admissible call, with the reason why it fits. -/
structure Suits (far wide worker : Bool) (c : Call) : Prop where
  near : far = false → ∀ d ∈ c.children, d.submittedLocally = true
  worker : far = true → worker = true
  serializable : far = true → ∀ d ∈ c.children, d.serializable = true
  submitsFirst : c.submitsFirst = true
  branches : wide = true → c.branches = true

variable {worker : Bool} {c d : Call}

theorem Suits.admissible (h : c.Suits far wide worker) : c.Admissible wide worker := by
  refine ⟨?_, h.submitsFirst, h.branches⟩
  cases far with
  | false => exact .inl (h.near rfl)
  | true => exact .inr ⟨h.worker rfl, h.serializable rfl⟩

theorem Admissible.suits (h : c.Admissible wide worker) : ∃ far, c.Suits far wide worker := by
  obtain hNear | ⟨hWorker, hSerializable⟩ := h.fits
  · exact ⟨false, fun _ => hNear, (by rintro ⟨⟩), (by rintro ⟨⟩), h.submitsFirst, h.branches⟩
  · exact ⟨true, (by rintro ⟨⟩), fun _ => hWorker, fun _ => hSerializable, h.submitsFirst,
      h.branches⟩

theorem Suits.child (h : c.Suits far wide worker) (hd : d ∈ c.children) :
    d.Suits far wide worker :=
  ⟨fun hFar _ he => all_child (h.near hFar d hd) he, h.worker,
    fun hFar _ he => all_child (h.serializable hFar d hd) he, all_child h.submitsFirst hd,
    fun hWide => all_child (h.branches hWide) hd⟩

end Call

/-- Whether the function of a node with this fate is applied in this process. -/
def Fate.executes : Fate → Bool
  | .ran | .handedToPool => true
  | .sent _ | .discarded => false

namespace Balancer

/-- Waits to be handed over: nothing has been done with the node. -/
structure Waiting (far wide : Bool) (b : Balancer) (n : NodeId) : Prop where
  untouched : (b.node n).Untouched
  pos : 0 < n
  created : n ≤ b.uniqueIdCounter
  no_fate : n ∉ b.fates.map Prod.fst
  not_pooled : n ∉ b.threadPool
  not_executed : n ∉ b.executed
  suits : ∀ c, (b.node n).offered = some c → c.Suits far wide b.schedulerWorker
  serializer : far = true → (b.node n).argsSerializer = true

/-- Met this one fate, once. A node is executed or waits in the pool when its fate says so. -/
structure Settled (b : Balancer) (n : NodeId) (fate : Fate) : Prop where
  once : b.fates.filter (fun e => e.1 = n) = [(n, fate)]
  cached : (b.node n).shouldBranchCached = some (fate != .discarded)
  executions : (b.executed ++ b.threadPool).count n = if fate.executes then 1 else 0
  pooled : n ∈ b.threadPool → fate = .handedToPool

structure Ledger (far wide : Bool) (b : Balancer) (waits : NodeId → Prop) : Prop where
  waiting : ∀ n, waits n → b.Waiting far wide n
  settled : ∀ n, 0 < n → n ≤ b.uniqueIdCounter →
    (b.node n).isDummy = true ∨ waits n ∨ ∃ fate, b.Settled n fate
  running : ∀ n ∈ b.running, n ∈ b.fates.map Prod.fst
  recorded : ∀ n ∈ b.fates.map Prod.fst ++ b.executed ++ b.threadPool,
    0 < n ∧ n ≤ b.uniqueIdCounter
  pool : ∀ n ∈ b.threadPool, ∃ c, (b.node n).arguments = some c ∧
    c.Admissible wide b.schedulerWorker
  picks : ∀ p ∈ b.picks, p.state = .unused ∧ p.isDummy = false ∧ p.isRunning = false
  handouts : ∀ h ∈ b.handouts, h.isPending = true ∧
    (wide = true → ∀ d ∈ h.pendingDepths, h.depth ≤ d)
  defensive : wide = true → b.defensiveReturns = 0

/-- Two states that differ in the links and the roots at most. No node gets a root slot back. -/
structure Relinked (b b' : Balancer) : Prop where
  node : ∀ n, (b'.node n).unlinked = (b.node n).unlinked
  rest : { b' with node := b.node, roots := b.roots } = b
  root : ∀ n, (b.node n).root = none → (b'.node n).root = none

/-- `n` meets a fate between the two states. -/
structure Resolves (wide : Bool) (b b' : Balancer) (n : NodeId) (fate : Fate) : Prop where
  other : ∀ m, m ≠ n → b'.node m = b.node m
  isDummy : (b'.node n).isDummy = (b.node n).isDummy
  cached : (b'.node n).shouldBranchCached = some (fate != .discarded)
  counter : b'.uniqueIdCounter = b.uniqueIdCounter
  worker : b'.schedulerWorker = b.schedulerWorker
  fates : b'.fates = (n, fate) :: b.fates
  executions : ∀ m, (b'.executed ++ b'.threadPool).count m =
    (b.executed ++ b.threadPool).count m + if m = n ∧ fate.executes then 1 else 0
  pooled : ∀ m ∈ b'.threadPool, m ∈ b.threadPool ∨ m = n ∧ fate = .handedToPool ∧
    ∃ c, (b'.node n).arguments = some c ∧ c.Admissible wide b.schedulerWorker
  running : ∀ m ∈ b'.running, m = n ∨ m ∈ b.running
  picks : b'.picks = b.picks
  handouts : ∀ h ∈ b'.handouts, h ∈ b.handouts ∨ h.isPending = true ∧
    (wide = true → ∀ d ∈ h.pendingDepths, h.depth ≤ d)
  defensive : b'.defensiveReturns = b.defensiveReturns

variable {b b' b'' : Balancer} {n m : NodeId} {fate : Fate} {waits waits' : NodeId → Prop}

theorem Relinked.refl (b : Balancer) : b.Relinked b := ⟨fun _ => rfl, rfl, fun _ hn => hn⟩

theorem Relinked.trans (h : b.Relinked b') (h' : b'.Relinked b'') : b.Relinked b'' := by
  refine ⟨fun n => (h'.node n).trans (h.node n), ?_, fun n hn => h'.root n (h.root n hn)⟩
  rw [← h.rest, ← h'.rest]

namespace Relinked

variable (h : b.Relinked b')

include h

theorem core {β : Type} (f : NodeCore Call → β) (hf : ∀ m, f m.unlinked = f m) (n : NodeId) :
    f (b'.node n) = f (b.node n) := by
  rw [← hf, h.node, hf]

theorem field {β : Type} (f : Balancer → β)
    (hf : ∀ c node roots, f { c with node, roots } = f c) : f b' = f b := by
  rw [← hf b' b.node b.roots, h.rest]

theorem state (n : NodeId) : (b'.node n).state = (b.node n).state :=
  h.core (fun m => m.state) (fun _ => rfl) n

theorem offered (n : NodeId) : (b'.node n).offered = (b.node n).offered :=
  h.core (fun m => m.offered) (fun _ => rfl) n

theorem uniqueIdCounter : b'.uniqueIdCounter = b.uniqueIdCounter :=
  h.field (fun c => c.uniqueIdCounter) fun _ _ _ => rfl

theorem schedulerWorker : b'.schedulerWorker = b.schedulerWorker :=
  h.field (fun c => c.schedulerWorker) fun _ _ _ => rfl

theorem depth : b'.depth = b.depth := h.field (fun c => c.depth) fun _ _ _ => rfl

theorem untouched (hn : (b.node n).Untouched) : (b'.node n).Untouched := by
  have hNode : (b.node n).unlinked.Untouched := ⟨hn.state, hn.not_dummy, hn.not_asked, hn.ready⟩
  rw [← h.node n] at hNode
  exact ⟨hNode.state, hNode.not_dummy, hNode.not_asked, hNode.ready⟩

theorem waiting (hn : b.Waiting far wide n) : b'.Waiting far wide n := by
  have hFates : b'.fates = b.fates := h.field (fun c => c.fates) fun _ _ _ => rfl
  have hPool : b'.threadPool = b.threadPool := h.field (fun c => c.threadPool) fun _ _ _ => rfl
  have hExecuted : b'.executed = b.executed := h.field (fun c => c.executed) fun _ _ _ => rfl
  have hSerializer : (b'.node n).argsSerializer = (b.node n).argsSerializer :=
    h.core (fun m => m.argsSerializer) (fun _ => rfl) n
  refine ⟨h.untouched hn.untouched, hn.pos, ?_, ?_, ?_, ?_, ?_, ?_⟩
  · rw [h.uniqueIdCounter]
    exact hn.created
  · rw [hFates]
    exact hn.no_fate
  · rw [hPool]
    exact hn.not_pooled
  · rw [hExecuted]
    exact hn.not_executed
  · rw [h.offered, h.schedulerWorker]
    exact hn.suits
  · rw [hSerializer]
    exact hn.serializer

theorem settled (hn : b.Settled n fate) : b'.Settled n fate := by
  have hFates : b'.fates = b.fates := h.field (fun c => c.fates) fun _ _ _ => rfl
  have hPool : b'.threadPool = b.threadPool := h.field (fun c => c.threadPool) fun _ _ _ => rfl
  have hExecuted : b'.executed = b.executed := h.field (fun c => c.executed) fun _ _ _ => rfl
  have hCached : (b'.node n).shouldBranchCached = (b.node n).shouldBranchCached :=
    h.core (fun m => m.shouldBranchCached) (fun _ => rfl) n
  refine ⟨?_, ?_, ?_, ?_⟩
  · rw [hFates]
    exact hn.once
  · rw [hCached]
    exact hn.cached
  · rw [hExecuted, hPool]
    exact hn.executions
  · rw [hPool]
    exact hn.pooled

end Relinked

namespace Ledger

theorem congr (hb : b.Ledger far wide waits) (h : ∀ n, waits n ↔ waits' n) :
    b.Ledger far wide waits' := by
  have hWaits : waits = waits' := funext fun n => propext (h n)
  rw [← hWaits]
  exact hb

theorem relink (hb : b.Ledger far wide waits) (h : b.Relinked b') :
    b'.Ledger far wide waits := by
  have hFates : b'.fates = b.fates := h.field (fun c => c.fates) fun _ _ _ => rfl
  have hPool : b'.threadPool = b.threadPool := h.field (fun c => c.threadPool) fun _ _ _ => rfl
  have hExecuted : b'.executed = b.executed := h.field (fun c => c.executed) fun _ _ _ => rfl
  have hRunning : b'.running = b.running := h.field (fun c => c.running) fun _ _ _ => rfl
  have hPicks : b'.picks = b.picks := h.field (fun c => c.picks) fun _ _ _ => rfl
  have hHandouts : b'.handouts = b.handouts := h.field (fun c => c.handouts) fun _ _ _ => rfl
  have hDefensive : b'.defensiveReturns = b.defensiveReturns :=
    h.field (fun c => c.defensiveReturns) fun _ _ _ => rfl
  refine ⟨fun n hn => h.waiting (hb.waiting n hn), ?_, ?_, ?_, ?_, ?_, ?_, ?_⟩
  · intro n hn hCreated
    have hDummy : (b'.node n).isDummy = (b.node n).isDummy :=
      h.core (fun m => m.isDummy) (fun _ => rfl) n
    rw [h.uniqueIdCounter] at hCreated
    rw [hDummy]
    obtain hDummy | hWaits | ⟨fate, hFate⟩ := hb.settled n hn hCreated
    · exact .inl hDummy
    · exact .inr (.inl hWaits)
    · exact .inr (.inr ⟨fate, h.settled hFate⟩)
  · rw [hRunning, hFates]
    exact hb.running
  · rw [hFates, hExecuted, hPool, h.uniqueIdCounter]
    exact hb.recorded
  · intro n hn
    rw [hPool] at hn
    have hArguments : (b'.node n).arguments = (b.node n).arguments :=
      h.core (fun m => m.arguments) (fun _ => rfl) n
    rw [hArguments, h.schedulerWorker]
    exact hb.pool n hn
  · rw [hPicks]
    exact hb.picks
  · rw [hHandouts]
    exact hb.handouts
  · rw [hDefensive]
    exact hb.defensive

theorem resolve (hb : b.Ledger far wide waits) (hn : waits n)
    (h : b.Resolves wide b' n fate) : b'.Ledger far wide (fun m => waits m ∧ m ≠ n) := by
  have hWaiting := hb.waiting n hn
  have hMem : ∀ m, m ∈ b'.executed ++ b'.threadPool → m ∈ b.executed ++ b.threadPool ∨ m = n := by
    intro m hm
    rw [← List.count_pos_iff, h.executions m] at hm
    split at hm
    · rename_i hmn
      exact .inr hmn.1
    · exact .inl (List.count_pos_iff.mp hm)
  have hOther : ∀ m, m ≠ n → m ∉ b.fates.map Prod.fst → m ∉ b'.fates.map Prod.fst := by
    intro m hmn hm hm'
    rw [h.fates] at hm'
    obtain hm' | hm' := List.mem_cons.mp hm'
    · exact hmn hm'
    · exact hm hm'
  refine ⟨?_, ?_, ?_, ?_, ?_, ?_, ?_, ?_⟩
  · rintro m ⟨hm, hmn⟩
    have hm := hb.waiting m hm
    refine ⟨?_, hm.pos, ?_, hOther m hmn hm.no_fate, ?_, ?_, ?_, ?_⟩
    · rw [h.other m hmn]
      exact hm.untouched
    · rw [h.counter]
      exact hm.created
    · intro hPool
      obtain hPool | hPool := h.pooled m hPool
      · exact hm.not_pooled hPool
      · exact hmn hPool.1
    · intro hExecuted
      obtain hm' | hm' := hMem m (List.mem_append_left _ hExecuted)
      · obtain hm' | hm' := List.mem_append.mp hm'
        · exact hm.not_executed hm'
        · exact hm.not_pooled hm'
      · exact hmn hm'
    · rw [h.other m hmn, h.worker]
      exact hm.suits
    · rw [h.other m hmn]
      exact hm.serializer
  · intro m hm hCreated
    rw [h.counter] at hCreated
    obtain rfl | hmn := eq_or_ne m n
    · refine .inr (.inr ⟨fate, ?_, h.cached, ?_, ?_⟩)
      · rw [h.fates, List.filter_cons_of_pos (by simp), List.filter_eq_nil_iff.mpr]
        intro e he hem
        rw [decide_eq_true_eq] at hem
        exact hWaiting.no_fate (List.mem_map.mpr ⟨e, he, hem⟩)
      · have hNone : (b.executed ++ b.threadPool).count m = 0 := by
          rw [List.count_eq_zero, List.mem_append, not_or]
          exact ⟨hWaiting.not_executed, hWaiting.not_pooled⟩
        rw [h.executions m, hNone]
        simp
      · intro hPool
        obtain hPool | hPool := h.pooled m hPool
        · exact absurd hPool hWaiting.not_pooled
        · exact hPool.2.1
    · rw [h.other m hmn]
      obtain hDummy | hWaits | ⟨fate', hFate⟩ := hb.settled m hm hCreated
      · exact .inl hDummy
      · exact .inr (.inl ⟨hWaits, hmn⟩)
      · refine .inr (.inr ⟨fate', ?_, ?_, ?_, ?_⟩)
        · rw [h.fates, List.filter_cons_of_neg (by simp [hmn.symm])]
          exact hFate.once
        · rw [h.other m hmn]
          exact hFate.cached
        · rw [h.executions m, if_neg (fun hm => hmn hm.1), Nat.add_zero]
          exact hFate.executions
        · intro hPool
          obtain hPool | hPool := h.pooled m hPool
          · exact hFate.pooled hPool
          · exact absurd hPool.1 hmn
  · intro m hm
    rw [h.fates]
    obtain rfl | hm := h.running m hm
    · exact List.mem_cons_self
    · exact List.mem_cons_of_mem _ (hb.running m hm)
  · intro m hm
    rw [h.counter]
    rw [List.append_assoc, h.fates] at hm
    have hCase : m = n ∨ m ∈ b.fates.map Prod.fst ++ b.executed ++ b.threadPool := by
      rw [List.append_assoc]
      obtain hm | hm := List.mem_append.mp hm
      · obtain hm | hm := List.mem_cons.mp hm
        · exact .inl hm
        · exact .inr (List.mem_append_left _ hm)
      · obtain hm | hm := hMem m hm
        · exact .inr (List.mem_append_right _ hm)
        · exact .inl hm
    obtain rfl | hm := hCase
    · exact ⟨hWaiting.pos, hWaiting.created⟩
    · exact hb.recorded m hm
  · intro m hm
    rw [h.worker]
    obtain hm | ⟨rfl, -, hm⟩ := h.pooled m hm
    · have hmn : m ≠ n := by
        rintro rfl
        exact hWaiting.not_pooled hm
      rw [h.other m hmn]
      exact hb.pool m hm
    · exact hm
  · rw [h.picks]
    exact hb.picks
  · intro e he
    obtain he | he := h.handouts e he
    · exact hb.handouts e he
    · exact he
  · rw [h.defensive]
    exact hb.defensive

end Ledger

end Balancer

end Gempba
