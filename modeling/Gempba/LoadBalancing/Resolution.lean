import Gempba.LoadBalancing.Ledger
import Gempba.LoadBalancing.Spine

/-!
# How a waiting node is resolved

A node that waits is delegated, discarded or started without a throw, and
neither of these touches the links of any node.
-/

namespace Gempba

set_option autoImplicit false

open NodeCore

namespace Balancer

def links (b : Balancer) : LinkMap := fun n => (b.node n).links

variable {far wide : Bool} {b b' : Balancer} {n m : NodeId} {waits : NodeId → Prop}
  {route : Route} {fate : Fate} {f : NodeCore Call → NodeCore Call}

theorem links_modify (hf : (f (b.node n)).links = (b.node n).links) :
    (b.modify n f).links = b.links := by
  funext m
  obtain rfl | hmn := eq_or_ne m n
  · rw [links, modify_node_self, hf]
    rfl
  · rw [links, modify_node_of_ne f hmn]
    rfl

/-- What stays as it is while a node is resolved. -/
structure SameTree (b b' : Balancer) : Prop where
  links : b'.links = b.links
  roots : b'.roots = b.roots
  depth : b'.depth = b.depth

/-- The node is pending, and no node of its thread is pending at a smaller depth. -/
theorem Ledger.handOut (hb : b.Ledger far wide waits) (hn : waits n)
    (hDepth : wide = true → ∀ m, waits m → b.depth n ≤ b.depth m) :
    let t := (b.node n).threadId
    b.isPending t n = true ∧ (wide = true → ∀ d ∈ b.pendingDepths t, b.depth n ≤ d) := by
  have hWaiting := hb.waiting n hn
  have hRunning : n ∉ b.running := fun h => hWaiting.no_fate (hb.running n h)
  constructor
  · simp [isPending, hWaiting.untouched.not_dummy, hWaiting.untouched.state, hRunning,
      hWaiting.no_fate]
  · intro hWide d hd
    obtain ⟨m, hm, rfl⟩ := List.mem_map.mp hd
    obtain ⟨hm, hPending⟩ := List.mem_filter.mp hm
    obtain ⟨hPos, hCreated⟩ := List.mem_range'_1.mp hm
    simp only [isPending, Bool.and_eq_true, Bool.not_eq_true', decide_eq_false_iff_not]
      at hPending
    obtain ⟨⟨⟨⟨-, hDummy⟩, -⟩, -⟩, hFate⟩ := hPending
    apply hDepth hWide
    obtain hDummy' | hWaits | ⟨fate, hSettled⟩ := hb.settled m hPos (by omega)
    · rw [hDummy] at hDummy'
      cases hDummy'
    · exact hWaits
    · have hMem : (m, fate) ∈ b.fates.filter (fun e => e.1 = m) := by
        rw [hSettled.once]
        exact List.mem_singleton_self _
      exact absurd (List.mem_map_of_mem (List.mem_filter.mp hMem).1) hFate

/-- `n` takes the state `s` and meets a fate, and nothing else happens to the nodes. -/
structure Meets (b b' : Balancer) (n : NodeId) (s : NodeState) (fate : Fate) : Prop where
  self : b'.node n = { b.node n with state := s }
  other : ∀ m, m ≠ n → b'.node m = b.node m
  fates : b'.fates = (n, fate) :: b.fates
  counter : b'.uniqueIdCounter = b.uniqueIdCounter
  worker : b'.schedulerWorker = b.schedulerWorker
  roots : b'.roots = b.roots
  depth : b'.depth = b.depth
  picks : b'.picks = b.picks
  handouts : b'.handouts = b.handouts ∨ b'.handouts = (b.handOut n).handouts
  defensive : b'.defensiveReturns = b.defensiveReturns

theorem meets_discard (b : Balancer) (n : NodeId) :
    b.Meets (b.discard n) n .discarded .discarded :=
  ⟨modify_node_self _, fun _ hm => modify_node_of_ne _ hm, rfl, rfl, rfl, rfl, rfl, rfl, .inl rfl,
    rfl⟩

theorem delegate_locally (hState : (b.node n).state = .unused)
    (hFlag : (b.node n).initializationFlag = .initialized) :
    ∃ b', b.delegate n .locally = .ok b' ∧ b.Meets b' n .pushed .handedToPool ∧
      b'.executed = b.executed ∧ b'.threadPool = b.threadPool ++ [n] ∧ b'.running = b.running := by
  have hDelegate : b.delegate n .locally = .ok ((({ b.handOut n with
      threadRequestCount := b.threadRequestCount + 1
      threadPool := b.threadPool ++ [n] }).modify n
        fun _ => { b.node n with state := .pushed }).settle n .handedToPool) := by
    rw [delegate, delegateLocally]
    rw [if_neg (not_not.mpr (show ((b.handOut n).node n).state = .unused from hState))]
    change (do let m ← (b.node n).ensureArgsInitialized; _) = _
    rw [ensureArgsInitialized_of_initialized hFlag]
    rfl
  refine ⟨_, hDelegate, ?_, rfl, rfl, rfl⟩
  exact ⟨Function.update_self .., fun _ hm => Function.update_of_ne hm .., rfl, rfl, rfl, rfl, rfl,
    rfl, .inr rfl, rfl⟩

theorem delegate_remotely (hState : (b.node n).state = .unused)
    (hFlag : (b.node n).initializationFlag = .initialized)
    (hSerializer : (b.node n).argsSerializer = true) (runnableId : ℤ) :
    ∃ b', b.delegate n (.remotely runnableId) = .ok b' ∧
      b.Meets b' n .sentToAnotherProcess (.sent runnableId) ∧
      b'.executed = b.executed ∧ b'.threadPool = b.threadPool ∧ b'.running = b.running := by
  have hDelegate : b.delegate n (.remotely runnableId) = .ok (((b.handOut n).modify n
      fun _ => { b.node n with state := .sentToAnotherProcess }).settle n (.sent runnableId)) := by
    rw [delegate, delegateRemotely]
    rw [if_neg (not_not.mpr (show ((b.handOut n).node n).state = .unused from hState))]
    change (do let m ← (b.node n).ensureArgsInitialized; _) = _
    rw [ensureArgsInitialized_of_initialized hFlag]
    change (do let _packet ← (b.node n).serialize; _) = _
    rw [serialize_of_initialized hFlag hSerializer]
    rfl
  refine ⟨_, hDelegate, ?_, rfl, rfl, rfl⟩
  exact ⟨Function.update_self .., fun _ hm => Function.update_of_ne hm .., rfl, rfl, rfl, rfl, rfl,
    rfl, .inr rfl, rfl⟩

theorem count_add_of_not_executes (hFate : fate.executes = false) (l : List NodeId)
    (m : NodeId) : l.count m = l.count m + if m = n ∧ fate.executes = true then 1 else 0 := by
  rw [hFate, if_neg (fun hm => Bool.false_ne_true hm.2), Nat.add_zero]

/-- The state once `should_branch` has answered for `n`. -/
def answer (b : Balancer) (n : NodeId) : Balancer := b.modify n fun m => m.shouldBranch.2

theorem answer_node_self : (b.answer n).node n = (b.node n).shouldBranch.2 := modify_node_self _

theorem answer_node_of_ne (h : m ≠ n) : (b.answer n).node m = b.node m := modify_node_of_ne _ h

theorem shouldBranch_eq : b.shouldBranch n = ((b.node n).shouldBranch.1, b.answer n) := rfl

section

variable (hb : b.Ledger far wide waits) (hn : waits n)

include hb hn

theorem Ledger.shouldBranch : (b.node n).shouldBranch.1 = (b.node n).offered.isSome :=
  (hb.waiting n hn).untouched.shouldBranch.1

theorem Ledger.answered : (b.node n).Answered ((b.answer n).node n) := by
  rw [answer_node_self]
  exact (hb.waiting n hn).untouched.shouldBranch.2

theorem Ledger.sameTree_answer : b.SameTree (b.answer n) := by
  refine ⟨links_modify ?_, rfl, rfl⟩
  exact (hb.waiting n hn).untouched.shouldBranch.2.links

theorem Ledger.handOut_answer (hDepth : wide = true → ∀ m, waits m → b.depth n ≤ b.depth m) :
    let t := ((b.answer n).node n).threadId
    (b.answer n).isPending t n = true ∧
      (wide = true → ∀ d ∈ (b.answer n).pendingDepths t, b.depth n ≤ d) := by
  have hAnswered := hb.answered hn
  have hUntouched := (hb.waiting n hn).untouched
  have hPending : ∀ t, (b.answer n).isPending t = b.isPending t := by
    intro t
    funext m
    obtain rfl | hmn := eq_or_ne m n
    · have hThread := congrArg (fun l => l.threadId) hAnswered.links
      simp only [isPending, hAnswered.not_dummy, hUntouched.not_dummy, hAnswered.state,
        hUntouched.state]
      rw [show ((b.answer m).node m).threadId = (b.node m).threadId from hThread]
      rfl
    · rw [isPending, answer_node_of_ne hmn]
      rfl
  have hThread : ((b.answer n).node n).threadId = (b.node n).threadId :=
    congrArg (fun l => l.threadId) hAnswered.links
  simp only [hThread, pendingDepths, hPending]
  exact hb.handOut hn hDepth

theorem Ledger.resolves {s : NodeState} (h : (b.answer n).Meets b' n s fate)
    (hFate : (b.node n).offered.isSome = (fate != .discarded))
    (hDepth : wide = true → b'.handouts ≠ b.handouts → ∀ m, waits m → b.depth n ≤ b.depth m)
    (hExecutions : ∀ m, (b'.executed ++ b'.threadPool).count m =
      (b.executed ++ b.threadPool).count m + if m = n ∧ fate.executes then 1 else 0)
    (hPool : ∀ m ∈ b'.threadPool, m ∈ b.threadPool ∨ m = n ∧ fate = .handedToPool)
    (hRunning : ∀ m ∈ b'.running, m = n ∨ m ∈ b.running) :
    b.Resolves wide b' n fate ∧ b.SameTree b' := by
  have hAnswered := hb.answered hn
  have hTree := hb.sameTree_answer hn
  have hWaiting := hb.waiting n hn
  refine ⟨⟨?_, ?_, ?_, h.counter, h.worker, h.fates, hExecutions, ?_, hRunning, h.picks, ?_,
    h.defensive⟩, ?_, h.roots.trans hTree.roots, h.depth.trans hTree.depth⟩
  · intro m hm
    rw [h.other m hm, answer_node_of_ne hm]
  · rw [h.self, hWaiting.untouched.not_dummy]
    exact hAnswered.not_dummy
  · rw [h.self, ← hFate]
    exact hAnswered.cached
  · intro m hm
    obtain hm | ⟨rfl, rfl⟩ := hPool m hm
    · exact .inl hm
    · obtain ⟨c, hOffered⟩ := Option.isSome_iff_exists.mp hFate
      refine .inr ⟨rfl, rfl, c, ?_, (hWaiting.suits c hOffered).admissible⟩
      rw [h.self]
      exact (hAnswered.ready c hOffered).2
  · intro e he
    obtain hHandouts | hHandouts := h.handouts
    · rw [hHandouts] at he
      exact .inl he
    · have hNew : b'.handouts ≠ b.handouts := by
        rw [hHandouts]
        exact List.cons_ne_self _ _
      rw [hHandouts] at he
      obtain rfl | he := List.mem_cons.mp he
      · exact .inr (hb.handOut_answer hn fun hWide => hDepth hWide hNew)
      · exact .inl he
  · funext m
    obtain rfl | hm := eq_or_ne m n
    · rw [links, h.self]
      exact hAnswered.links
    · rw [links, h.other m hm, answer_node_of_ne hm]
      rfl

theorem Ledger.discard (hOffered : (b.node n).offered = none) :
    b.Resolves wide ((b.answer n).discard n) n .discarded ∧
      b.SameTree ((b.answer n).discard n) :=
  hb.resolves hn (meets_discard _ n) (by rw [hOffered]; rfl) (fun _ h => absurd rfl h)
    (count_add_of_not_executes rfl _) (fun _ hm => .inl hm)
    (fun _ hm => .inr hm)

theorem Ledger.delegateOrDiscard (hRoute : route ≠ .locally → far = true)
    (hDepth : wide = true → ∀ m, waits m → b.depth n ≤ b.depth m) :
    ∃ b' fate, b.delegateOrDiscard n route = .ok b' ∧ b.Resolves wide b' n fate ∧
      b.SameTree b' ∧ (b'.node n).state ≠ .unused := by
  have hAnswered := hb.answered hn
  rw [Balancer.delegateOrDiscard, shouldBranch_eq, hb.shouldBranch hn]
  cases hOffered : (b.node n).offered with
  | none =>
    obtain ⟨hResolves, hTree⟩ := hb.discard hn hOffered
    refine ⟨_, .discarded, rfl, hResolves, hTree, ?_⟩
    rw [(meets_discard (b.answer n) n).self]
    rintro ⟨⟩
  | some c =>
    obtain ⟨hFlag, -⟩ := hAnswered.ready c hOffered
    cases route with
    | locally =>
      obtain ⟨b', hDelegate, hMeets, hExecuted, hPool, hRunning⟩ :=
        delegate_locally hAnswered.state hFlag
      obtain ⟨hResolves, hTree⟩ := hb.resolves hn hMeets (by rw [hOffered]; rfl)
        (fun hWide _ => hDepth hWide) (by
          intro m
          rw [hExecuted, hPool, ← List.append_assoc, List.count_append, List.count_singleton]
          obtain rfl | hm := eq_or_ne m n
          · rw [if_pos (beq_self_eq_true m), if_pos ⟨rfl, rfl⟩]
            rfl
          · rw [if_neg (fun h => hm (eq_of_beq h).symm), if_neg (fun h => hm h.1)]
            rfl) (by
          intro m hm
          rw [hPool] at hm
          obtain hm | hm := List.mem_append.mp hm
          · exact .inl hm
          · exact .inr ⟨List.mem_singleton.mp hm, rfl⟩) (by
          intro m hm
          rw [hRunning] at hm
          exact .inr hm)
      refine ⟨b', .handedToPool, hDelegate, hResolves, hTree, ?_⟩
      rw [hMeets.self]
      rintro ⟨⟩
    | remotely runnableId =>
      have hSerializer : ((b.answer n).node n).argsSerializer = true := by
        rw [hAnswered.argsSerializer]
        exact (hb.waiting n hn).serializer (hRoute (by rintro ⟨⟩))
      obtain ⟨b', hDelegate, hMeets, hExecuted, hPool, hRunning⟩ :=
        delegate_remotely hAnswered.state hFlag hSerializer runnableId
      obtain ⟨hResolves, hTree⟩ := hb.resolves hn hMeets (by rw [hOffered]; rfl)
        (fun hWide _ => hDepth hWide) (by
          intro m
          rw [hExecuted, hPool]
          exact count_add_of_not_executes rfl _ m) (by
          intro m hm
          rw [hPool] at hm
          exact .inl hm) (by
          intro m hm
          rw [hRunning] at hm
          exact .inr hm)
      refine ⟨b', .sent runnableId, hDelegate, hResolves, hTree, ?_⟩
      rw [hMeets.self]
      rintro ⟨⟩

theorem Ledger.forwardDiscarded (hOffered : (b.node n).offered = none) :
    b.Resolves wide ((b.answer n).settle n .discarded) n .discarded ∧
      b.SameTree ((b.answer n).settle n .discarded) := by
  have hAnswered := hb.answered hn
  have hMeets : (b.answer n).Meets ((b.answer n).settle n .discarded) n .unused .discarded := by
    refine ⟨?_, fun _ _ => rfl, rfl, rfl, rfl, rfl, rfl, rfl, .inl rfl, rfl⟩
    rw [← hAnswered.state]
    rfl
  exact hb.resolves hn hMeets (by rw [hOffered]; rfl) (fun _ h => absurd rfl h)
    (count_add_of_not_executes rfl _) (fun _ hm => .inl hm)
    (fun _ hm => .inr hm)

/-- A waiting node that branches is run: this is the state in which the user's function starts. -/
theorem Ledger.start {c : Call} (hOffered : (b.node n).offered = some c) (body : Body) :
    ∃ b', run body (b.answer n) n = (body c (some n) b').map (fun b =>
        { b with running := b.running.erase n }.modify n
          fun m => { m with state := .forwarded }) ∧
      b.Resolves wide b' n .ran ∧ b.SameTree b' := by
  have hAnswered := hb.answered hn
  obtain ⟨hFlag, hArguments⟩ := hAnswered.ready c hOffered
  have hKeep : ((b.answer n).modify n fun _ => (b.answer n).node n) = b.answer n := by
    rw [modify, Function.update_eq_self]
  refine ⟨{ (b.answer n).settle n .ran with
    running := n :: b.running, executed := n :: b.executed }, ?_, ?_⟩
  · rw [run, if_neg (not_not.mpr hAnswered.state)]
    change (do let m ← ((b.answer n).node n).ensureArgsInitialized; _) = _
    rw [ensureArgsInitialized_of_initialized hFlag]
    have hInvoke : invoke body
        { ((b.answer n).modify n fun _ => (b.answer n).node n).settle n .ran with
          running := n :: b.running } n false = body c (some n)
        { (b.answer n).settle n .ran with
          running := n :: b.running, executed := n :: b.executed } := by
      have hStored : (({ (b.answer n).settle n .ran with
          running := n :: b.running }).node n).arguments = some c := hArguments
      rw [hKeep]
      exact invoke_eq hStored false
    refine (congrArg (fun x : Except Throw Balancer => x >>= fun b => .ok
      ({ b with running := b.running.erase n }.modify n
        fun m => { m with state := .forwarded })) hInvoke).trans ?_
    cases body c (some n) _ <;> rfl
  · refine hb.resolves hn (s := .unused) ?_ (by rw [hOffered]; rfl) (fun _ h => absurd rfl h) ?_
      (fun _ hm => .inl hm) (fun _ hm => List.mem_cons.mp hm)
    · exact ⟨by rw [← hAnswered.state]; rfl, fun _ _ => rfl, rfl, rfl, rfl, rfl, rfl, rfl, .inl rfl,
        rfl⟩
    · intro m
      change (n :: b.executed ++ b.threadPool).count m = _
      rw [List.cons_append, List.count_cons]
      obtain rfl | hm := eq_or_ne m n
      · rw [if_pos (beq_self_eq_true m), if_pos ⟨rfl, rfl⟩]
      · rw [if_neg (fun h => hm (eq_of_beq h).symm), if_neg (fun h => hm h.1)]

end

end Balancer

end Gempba
