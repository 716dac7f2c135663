import Gempba.Library.Machine
import Gempba.LoadBalancing.Rerooting

/-!
# Creations, submissions and returns in any order

What the program asks of the balancer, one request after the other. A
submission may come to the user's function, which then runs until the program
says that it returns; in between come the requests of that function.
-/

namespace Gempba

set_option autoImplicit false

open NodeCore Transition

namespace Balancer

/-- `forward` up to the user's function, with the arguments for it if it is called. -/
def startForward (b : Balancer) (n : NodeId) : Except Throw (Option Call × Balancer) :=
  if (b.node n).state = .unused then
    let (branches, b) := b.shouldBranch n
    if branches then (b.enter n).map fun x => (some x.1, x.2)
    else ((b.settle n .discarded).pruneAndCorrectRootAfterForward n).map fun b => (none, b)
  else (b.pruneAndCorrectRootAfterForward n).map fun b => (none, b)

def startLocally (b : Balancer) (n : NodeId) : Except Throw (Option Call × Balancer) := do
  let (sent, b) ← b.send n .locally
  if sent then return (none, b) else b.startForward n

def startRemotely (b : Balancer) (n : NodeId) (runnableId : ℤ) :
    Except Throw (Option Call × Balancer) := do
  if !b.schedulerWorker then throw .noSchedulerWorker
  let (sent, b) ← b.send n (.remotely runnableId)
  if sent then return (none, b) else b.startLocally n

def start (b : Balancer) (n : NodeId) : Submission → Except Throw (Option Call × Balancer)
  | .forward => b.startForward n
  | .tryLocalSubmit => b.startLocally n
  | .tryRemoteSubmit runnableId => b.startRemotely n runnableId

/-- The user's function has returned. -/
def finish (b : Balancer) (n : NodeId) : Except Throw Balancer :=
  (b.leave n).pruneAndCorrectRootAfterForward n

/-- What is left of a submission once it has started. -/
def conclude (body : Body) (n : NodeId) : Option Call × Balancer → Except Throw Balancer
  | (none, b) => .ok b
  | (some args, b) => do
    let b ← body args (some n) b
    b.finish n

inductive Operation where
  | create (t : ThreadId) (parent : Option NodeId) (core : NodeCore Call)
  | submit (n : NodeId) (s : Submission)
  | finish (n : NodeId)

/-- A node is created without links, on the thread of its parent. -/
def submissions : Machine Balancer Operation Throw where
  initial b := ∃ answers worker, b = { answers, schedulerWorker := worker }
  step
    | .create t parent core, b =>
      if ∀ p ∈ parent, b.Created p ∧ (b.node p).threadId = t then
        .ofExcept ((b.create t parent core.unlinked).map Prod.snd)
      else .blocked
    | .submit n s, b =>
      if b.Created n then .ofExcept ((b.start n s).map Prod.snd) else .blocked
    | .finish n, b =>
      if n ∈ b.running then .ofExcept (b.finish n) else .blocked

/-- Apart from bookkeeping, at most `n` has changed, and its links have not. -/
structure Touches (b b' : Balancer) (n : NodeId) : Prop where
  links : (b'.node n).links = (b.node n).links
  other : ∀ m, m ≠ n → b'.node m = b.node m
  roots : b'.roots = b.roots
  counter : b'.uniqueIdCounter = b.uniqueIdCounter
  answers : b'.answers = b.answers

variable {b b' b'' : Balancer} {n m : NodeId} {t : ThreadId} {route : Route} {s : Submission}
  {args : Call} {started : Option Call} {body : Body}

/-! ## A submission is its start and its conclusion -/

theorem forward_eq (body : Body) (b : Balancer) (n : NodeId) :
    forward body b n = b.startForward n >>= conclude body n := by
  rw [Balancer.forward, startForward, shouldBranch_eq]
  split
  · cases (b.node n).shouldBranch.1 with
    | true =>
      change (run body (b.answer n) n >>= fun b => b.pruneAndCorrectRootAfterForward n) =
        ((b.answer n).enter n).map _ >>= conclude body n
      rw [run_eq]
      cases (b.answer n).enter n with
      | error e => rfl
      | ok x =>
        change ((body x.1 (some n) x.2).map _ >>= _) = (body x.1 (some n) x.2 >>= _)
        cases body x.1 (some n) x.2 with
        | error e => rfl
        | ok b => rfl
    | false =>
      change ((b.answer n).settle n .discarded).pruneAndCorrectRootAfterForward n = _
      dsimp only
      rw [if_neg (by decide)]
      cases ((b.answer n).settle n .discarded).pruneAndCorrectRootAfterForward n <;> rfl
  · cases b.pruneAndCorrectRootAfterForward n <;> rfl

theorem tryLocalSubmit_eq (body : Body) (b : Balancer) (n : NodeId) :
    (tryLocalSubmit body b n).map Prod.snd = b.startLocally n >>= conclude body n := by
  rw [Balancer.tryLocalSubmit, startLocally]
  cases b.send n .locally with
  | error e => rfl
  | ok x =>
    obtain ⟨sent, b₁⟩ := x
    cases sent with
    | true => rfl
    | false =>
      change Except.map Prod.snd (forward body b₁ n >>= fun b => pure (false, b)) =
        b₁.startForward n >>= conclude body n
      rw [← forward_eq]
      cases forward body b₁ n <;> rfl

theorem handOver_eq (body : Body) (b : Balancer) (n : NodeId) (s : Submission) :
    handOver body b n s = b.start n s >>= conclude body n := by
  cases s with
  | forward => exact forward_eq body b n
  | tryLocalSubmit => exact tryLocalSubmit_eq body b n
  | tryRemoteSubmit runnableId =>
    change (tryRemoteSubmit body b n runnableId).map Prod.snd =
      b.startRemotely n runnableId >>= conclude body n
    rw [Balancer.tryRemoteSubmit, startRemotely]
    cases b.schedulerWorker with
    | false => rfl
    | true =>
      change Except.map Prod.snd (b.send n (.remotely runnableId) >>= _) =
        (b.send n (.remotely runnableId) >>= _) >>= conclude body n
      cases b.send n (.remotely runnableId) with
      | error e => rfl
      | ok x =>
        obtain ⟨sent, b₁⟩ := x
        cases sent with
        | true => rfl
        | false =>
          change Except.map Prod.snd (tryLocalSubmit body b₁ n >>= fun x => pure (false, x.2)) =
            b₁.startLocally n >>= conclude body n
          rw [← tryLocalSubmit_eq]
          cases tryLocalSubmit body b₁ n <;> rfl

/-! ## Members that leave the links alone -/

namespace Touches

theorem of_node (hNode : b'.node = b.node) (hRoots : b'.roots = b.roots)
    (hCounter : b'.uniqueIdCounter = b.uniqueIdCounter) (hAnswers : b'.answers = b.answers) :
    b.Touches b' n := by
  refine ⟨?_, fun m _ => ?_, hRoots, hCounter, hAnswers⟩
  · rw [hNode]
  · rw [hNode]

theorem modify {f : NodeCore Call → NodeCore Call}
    (hLinks : (f (b.node n)).links = (b.node n).links) : b.Touches (b.modify n f) n := by
  refine ⟨?_, fun m hm => modify_node_of_ne f hm, rfl, rfl, rfl⟩
  rw [modify_node_self, hLinks]

theorem trans (h : b.Touches b' n) (h' : b'.Touches b'' n) : b.Touches b'' n :=
  ⟨h'.links.trans h.links, fun m hm => (h'.other m hm).trans (h.other m hm),
    h'.roots.trans h.roots, h'.counter.trans h.counter, h'.answers.trans h.answers⟩

theorem settles (h : b.Touches b' n) : b.Settles b' := by
  refine ⟨fun m => ?_, h.roots, h.counter⟩
  obtain rfl | hm := eq_or_ne m n
  · exact h.links
  · rw [h.other m hm]

theorem answer (b : Balancer) (n : NodeId) : b.Touches (b.answer n) n :=
  modify (shouldBranch_links (b.node n)).1

theorem delegateLocally (hOk : b.delegateLocally n = .ok b') : b.Touches b' n := by
  rw [Balancer.delegateLocally] at hOk
  split at hOk
  · cases hOk
  · obtain ⟨core, hEnsure, hOk⟩ := bind_ok hOk
    cases hOk
    have hLinks := (ensureArgsInitialized_links hEnsure).1
    have hPool : b.Touches { b with
        threadRequestCount := b.threadRequestCount + 1
        threadPool := b.threadPool ++ [n] } n := .of_node rfl rfl rfl rfl
    exact (hPool.trans (modify (f := fun _ => { core with state := .pushed }) hLinks)).trans
      (.of_node rfl rfl rfl rfl)

theorem delegateRemotely {runnableId : ℤ} (hOk : b.delegateRemotely n runnableId = .ok b') :
    b.Touches b' n := by
  rw [Balancer.delegateRemotely] at hOk
  split at hOk
  · cases hOk
  · obtain ⟨core, hEnsure, hOk⟩ := bind_ok hOk
    obtain ⟨-, -, hOk⟩ := bind_ok hOk
    cases hOk
    have hLinks := (ensureArgsInitialized_links hEnsure).1
    exact (modify (f := fun _ => { core with state := .sentToAnotherProcess }) hLinks).trans
      (.of_node rfl rfl rfl rfl)

theorem delegate (hOk : b.delegate n route = .ok b') : b.Touches b' n := by
  have hHandOut : b.Touches (b.handOut n) n := .of_node rfl rfl rfl rfl
  cases route with
  | locally => exact hHandOut.trans (delegateLocally hOk)
  | remotely runnableId => exact hHandOut.trans (delegateRemotely hOk)

theorem discard (b : Balancer) (n : NodeId) : b.Touches (b.discard n) n := by
  have hState : b.Touches (b.modify n (setState .discarded)) n := modify (links_setState _ _)
  exact hState.trans (.of_node rfl rfl rfl rfl)

theorem delegateOrDiscard (hOk : b.delegateOrDiscard n route = .ok b') : b.Touches b' n := by
  rw [Balancer.delegateOrDiscard, shouldBranch_eq] at hOk
  have hAnswer := answer b n
  cases hBranches : (b.node n).shouldBranch.1 with
  | true =>
    rw [hBranches] at hOk
    exact hAnswer.trans (delegate hOk)
  | false =>
    rw [hBranches] at hOk
    cases hOk
    exact hAnswer.trans (discard _ n)

theorem enter (hOk : b.enter n = .ok (args, b')) : b.Touches b' n := by
  rw [Balancer.enter] at hOk
  split at hOk
  · cases hOk
  · obtain ⟨core, hEnsure, hOk⟩ := bind_ok hOk
    have hLinks := (ensureArgsInitialized_links hEnsure).1
    have hModify : b.Touches (b.modify n fun _ => core) n := modify (f := fun _ => core) hLinks
    dsimp only at hOk
    split at hOk
    · cases hOk
    · cases hOk
      exact hModify.trans (.of_node rfl rfl rfl rfl)

theorem leave (b : Balancer) (n : NodeId) : b.Touches (b.leave n) n := by
  have hRunning : b.Touches { b with running := b.running.erase n } n := .of_node rfl rfl rfl rfl
  exact hRunning.trans (modify rfl)

end Touches

/-! ## What the requests build -/

namespace Built

variable (h : b.Built)

include h

theorem of_same (hNode : b'.node = b.node) (hRoots : b'.roots = b.roots)
    (hCounter : b'.uniqueIdCounter = b.uniqueIdCounter) : b'.Built :=
  h.settle ⟨fun m => by rw [hNode], hRoots, hCounter⟩

theorem pruneAndCorrectRootAfterForward (hOk : b.pruneAndCorrectRootAfterForward n = .ok b') :
    b'.Built := by
  rw [Balancer.pruneAndCorrectRootAfterForward] at hOk
  split at hOk
  · exact h.prune n hOk
  · obtain ⟨b₁, hPrune, hOk⟩ := bind_ok hOk
    exact (h.prune n hPrune).correct _ hOk

theorem pruneAndFixParentRootIfNeeded (hOk : b.pruneAndFixParentRootIfNeeded n = .ok b') :
    b'.Built := by
  rw [Balancer.pruneAndFixParentRootIfNeeded] at hOk
  split at hOk
  · cases hOk
    exact h
  · obtain ⟨b₁, hPrune, hOk⟩ := bind_ok hOk
    split at hOk
    · cases hOk
    · exact (h.prune n hPrune).correct _ hOk

theorem getRootLevelPendingNode {top : Option NodeId}
    (hOk : b.getRootLevelPendingNode n = .ok (top, b')) : b'.Built := by
  rw [Balancer.getRootLevelPendingNode] at hOk
  split at hOk
  · cases hOk
    exact h
  · split at hOk
    · cases hOk
      exact h
    · split at hOk
      · cases hOk
        exact h
      · split at hOk
        · cases hOk
          exact h.of_same rfl rfl rfl
        · obtain ⟨second, -, hOk⟩ := bind_ok hOk
          obtain ⟨b₁, hPrune, hOk⟩ := bind_ok hOk
          cases hOk
          exact (h.prune second hPrune).of_same rfl rfl rfl

theorem delegateOrDiscard (hOk : b.delegateOrDiscard n route = .ok b') : b'.Built :=
  h.settle (Touches.delegateOrDiscard hOk).settles

theorem tryPushRootLevelNode {pushed : Bool}
    (hOk : b.tryPushRootLevelNode n route = .ok (pushed, b')) : b'.Built := by
  rw [Balancer.tryPushRootLevelNode] at hOk
  obtain ⟨⟨top, b₁⟩, hPick, hOk⟩ := bind_ok hOk
  have h₁ := h.getRootLevelPendingNode hPick
  cases top with
  | none =>
    cases hOk
    exact h₁
  | some top =>
    change (if (b₁.node top).isConsumed = true then _ else _) = _ at hOk
    split at hOk
    · cases hOk
    · obtain ⟨b₂, hCorrect, hOk⟩ := bind_ok hOk
      obtain ⟨b₃, hDelegate, hOk⟩ := bind_ok hOk
      cases hOk
      exact (h₁.correct n hCorrect).delegateOrDiscard hDelegate

theorem ask : b.ask.2.Built := h.of_same rfl rfl rfl

theorem reject (route : Route) : (b.reject route).Built := by
  cases route with
  | locally => exact h.of_same rfl rfl rfl
  | remotely _ => exact h.of_same rfl rfl rfl

theorem send {sent : Bool} (hOk : b.send n route = .ok (sent, b')) : b'.Built := by
  rw [Balancer.send] at hOk
  generalize b.uniqueIdCounter + 1 = fuel at hOk
  induction fuel generalizing b with
  | zero => cases hOk
  | succ fuel ih =>
    rw [sendLoop] at hOk
    change (if (!b.ask.1) = true then _ else if (!b.ask.2.ask.1) = true then _ else _) = _ at hOk
    split at hOk
    · cases hOk
      exact h.ask
    · split at hOk
      · cases hOk
        exact h.ask.ask.reject route
      · obtain ⟨⟨pushed, b₁⟩, hPush, hOk⟩ := bind_ok hOk
        have h₁ := h.ask.ask.tryPushRootLevelNode hPush
        cases pushed with
        | true => exact ih h₁ hOk
        | false =>
          change (if (b₁.node n).isConsumed = true then _ else _) = _ at hOk
          split at hOk
          · cases hOk
          · obtain ⟨b₂, hFix, hOk⟩ := bind_ok hOk
            obtain ⟨b₃, hDelegate, hOk⟩ := bind_ok hOk
            cases hOk
            exact (h₁.pruneAndFixParentRootIfNeeded hFix).delegateOrDiscard hDelegate

theorem startForward (hOk : b.startForward n = .ok (started, b')) : b'.Built := by
  rw [Balancer.startForward, shouldBranch_eq] at hOk
  have hAnswer : (b.answer n).Built := h.settle (Touches.answer b n).settles
  split at hOk
  · cases hBranches : (b.node n).shouldBranch.1 with
    | true =>
      rw [hBranches] at hOk
      obtain ⟨⟨args, b₁⟩, hEnter, hOk⟩ := map_ok hOk
      cases hOk
      exact hAnswer.settle (Touches.enter hEnter).settles
    | false =>
      rw [hBranches] at hOk
      obtain ⟨b₁, hPrune, hOk⟩ := map_ok hOk
      cases hOk
      have hSettled : ((b.answer n).settle n .discarded).Built := hAnswer.of_same rfl rfl rfl
      exact hSettled.pruneAndCorrectRootAfterForward hPrune
  · obtain ⟨b₁, hPrune, hOk⟩ := map_ok hOk
    cases hOk
    exact h.pruneAndCorrectRootAfterForward hPrune

theorem startLocally (hOk : b.startLocally n = .ok (started, b')) : b'.Built := by
  obtain ⟨⟨sent, b₁⟩, hSend, hOk⟩ := bind_ok hOk
  have h₁ := h.send hSend
  cases sent with
  | true =>
    cases hOk
    exact h₁
  | false => exact h₁.startForward hOk

theorem start (hOk : b.start n s = .ok (started, b')) : b'.Built := by
  cases s with
  | forward => exact h.startForward hOk
  | tryLocalSubmit => exact h.startLocally hOk
  | tryRemoteSubmit runnableId =>
    change b.startRemotely n runnableId = _ at hOk
    rw [Balancer.startRemotely] at hOk
    split at hOk
    · cases hOk
    · obtain ⟨⟨sent, b₁⟩, hSend, hOk⟩ := bind_ok hOk
      have h₁ := h.send hSend
      cases sent with
      | true =>
        cases hOk
        exact h₁
      | false => exact h₁.startLocally hOk

theorem finish (hOk : b.finish n = .ok b') : b'.Built :=
  (h.settle (Touches.leave b n).settles).pruneAndCorrectRootAfterForward hOk

end Built

theorem Built.of_reachable (h : submissions.Reachable b) : b.Built := by
  refine h.invariant ?_ ?_
  · rintro _ ⟨answers, worker, rfl⟩
    exact .initial answers worker
  · rintro b (⟨t, parent, core⟩ | ⟨n, s⟩ | n) b' - hb - hStep
    · simp only [submissions] at hStep
      split at hStep
      · rename_i hParent
        obtain ⟨⟨n, b₁⟩, hCreate, rfl⟩ := map_ok (Outcome.ofExcept_eq_moved.mp hStep)
        exact hb.create t parent core.unlinked rfl hParent hCreate
      · cases hStep
    · simp only [submissions] at hStep
      split at hStep
      · obtain ⟨⟨started, b₁⟩, hStart, rfl⟩ := map_ok (Outcome.ofExcept_eq_moved.mp hStep)
        exact hb.start hStart
      · cases hStep
    · simp only [submissions] at hStep
      split at hStep
      · exact hb.finish (Outcome.ofExcept_eq_moved.mp hStep)
      · cases hStep

/-! ## Wherever the loop is called -/

/-- However the trees of the threads have come about, the loop ends wherever it is called. It moves
the root down past nodes with a single child and leaves nothing else of the tree behind. All
parents in the tree of the new root then lead up to it, and it is what `get_root` returns: for
the nodes below it always, for itself unless it was the root before and had been pruned. -/
theorem rerooting (h : b.Built) (n : NodeId) : ∃ b', b.tryCorrectRoot n = .ok b' ∧
    (b.getRoot n = none → b' = b) ∧ ∀ r, b.getRoot n = some r → ∃ passed x,
      b.Passes r passed x ∧ b'.roots (b.node n).threadId = some x ∧
      (∀ m, b.Below r m → m ∈ passed ∨ b'.Below x m) ∧
      ∀ m, b'.Below x m → b'.Climbs m x ∧ (b'.node x).parent = none ∧
        (m ≠ x ∨ x ≠ r ∨ (b.node r).root ≠ none → b'.getRoot m = some x) := by
  have hb := h.wellRooted
  obtain ⟨b', hOk, hb', hStays, hMoves⟩ := hb.tryCorrectRoot n
  refine ⟨b', hOk, hStays, fun r hr => ?_⟩
  obtain ⟨passed, x, ⟨hPasses, hLowered, -, -, -⟩⟩ := hMoves r hr
  obtain ⟨hCreated, hOrphan, hOwn⟩ := hb'.slot _ x hLowered.slot
  refine ⟨passed, x, hPasses, hLowered.slot, fun m hm => ?_,
    fun m hm => ⟨hb'.climbs hm, hOrphan, ?_⟩⟩
  · obtain hm | hm := hPasses.split hm
    · exact .inl hm
    · exact .inr (hLowered.below hb (hPasses.lt hb) hm)
  · intro hCase
    have hSlot : b'.roots (b'.node m).threadId = some x := by
      rw [hb'.threadId_below hm, hOwn]
      exact hLowered.slot
    apply hb'.getRoot_eq hSlot
    obtain rfl | hmx := eq_or_ne m x
    · have hKept : (b'.node m).root = (b.node m).root :=
        (hLowered.kept m fun hMem => Nat.lt_irrefl m (hPasses.lt hb m hMem)).2.1
      rw [hKept]
      obtain rfl | hmr := eq_or_ne m r
      · exact (hCase.resolve_left fun h => h rfl).resolve_left fun h => h rfl
      · exact hb.root_ne_none hPasses.reaches.1 hmr
    · exact hb'.root_ne_none hm hmx

/-- A node for a call without children. -/
def leafCore : NodeCore Call := .explicitly (.mk (.createExplicitNode false) .forward []) false

/-- A node that has not been submitted gets two children, and the first one is forwarded. -/
def forwardedChild : List Operation :=
  [.create 0 none leafCore, .create 0 (some 1) leafCore, .create 0 (some 1) leafCore,
    .submit 2 .forward]

/-- Nodes below one that has been forwarded. The first of the leaves is forwarded in turn. -/
def belowForwarded : List Operation :=
  [.create 0 none leafCore, .submit 1 .forward, .finish 1, .create 0 (some 1) leafCore,
    .create 0 (some 1) leafCore, .create 0 (some 2) leafCore, .submit 4 .forward]

theorem forwardedChild_runs : (submissions.run forwardedChild secondLock).isSome = true := by
  decide

theorem belowForwarded_runs : (submissions.run belowForwarded secondLock).isSome = true := by
  decide

theorem rerooting_forwardedChild :
    let b :=
      (((submissions.run forwardedChild secondLock).get forwardedChild_runs).leave 2).pruned 2
    ∃ b' passed x, b.tryCorrectRoot 1 = .ok b' ∧ b.Passes 1 passed x ∧ b'.roots 0 = some x := by
  intro b
  have hStart : submissions.Reachable secondLock := .start ⟨_, false, rfl⟩
  have hReachable := hStart.run (Option.some_get forwardedChild_runs).symm
  have hBuilt : b.Built :=
    ((Built.of_reachable hReachable).settle (Touches.leave _ 2).settles).prune 2 (prune_eq _ 2)
  obtain ⟨b', hOk, -, hMoves⟩ := rerooting hBuilt 1
  obtain ⟨passed, x, hPasses, hSlot, -⟩ := hMoves 1 (by decide)
  exact ⟨b', passed, x, hOk, hPasses, hSlot⟩

theorem finish_eq {p : NodeId} (hParent : ((b.leave n).node n).parent = some p) :
    b.finish n = ((b.leave n).pruned n).tryCorrectRoot p := by
  rw [finish, pruneAndCorrectRootAfterForward, hParent]
  dsimp only
  rw [prune_eq]
  rfl

/-- The root is passed although it is pending. In the tree of a root that was forwarded,
`get_root` of the root is null. -/
theorem rerooting_passesPending :
    (∃ b b', submissions.run forwardedChild secondLock = some b ∧
      ((b.leave 2).pruned 2).tryCorrectRoot 1 = .ok b' ∧ b.finish 2 = .ok b' ∧
      ((b.leave 2).pruned 2).getRoot 1 = some 1 ∧
      (b.node 1).state = .unused ∧ 1 ∉ b.running ∧ b'.roots 0 = some 3 ∧ ¬ b'.Below 3 1) ∧
    ∃ b b', submissions.run belowForwarded secondLock = some b ∧
      ((b.leave 4).pruned 4).tryCorrectRoot 2 = .ok b' ∧ b.finish 4 = .ok b' ∧
      ((b.leave 4).pruned 4).getRoot 2 = some 1 ∧
      b'.roots 0 = some 1 ∧ 2 ∈ (b'.node 1).children ∧ b'.getRoot 1 = none := by
  constructor
  · let b := (submissions.run forwardedChild secondLock).get forwardedChild_runs
    have hParent : ((b.leave 2).node 2).parent = some 1 := by decide
    have hFinish : (b.finish 2).map (fun b => (b.roots 0, (b.node 3).children)) =
        .ok (some 3, []) := by decide
    obtain ⟨b', hOk, hEnd⟩ := map_ok hFinish
    obtain ⟨hSlot, hChildren⟩ := Prod.mk.inj hEnd
    refine ⟨b, b', (Option.some_get forwardedChild_runs).symm, (finish_eq hParent).symm.trans hOk,
      hOk, by decide, by decide, by decide, hSlot, fun hBelow => ?_⟩
    obtain hSame | ⟨m, hm, -⟩ := hBelow.cases_head
    · exact absurd hSame (by decide)
    · rw [hChildren] at hm
      exact List.not_mem_nil hm
  · let b := (submissions.run belowForwarded secondLock).get belowForwarded_runs
    have hParent : ((b.leave 4).node 4).parent = some 2 := by decide
    have hFinish : (b.finish 4).map (fun b => (b.roots 0, (b.node 1).children, b.getRoot 1)) =
        .ok (some 1, [2, 3], none) := by decide
    obtain ⟨b', hOk, hEnd⟩ := map_ok hFinish
    obtain ⟨hSlot, hEnd⟩ := Prod.mk.inj hEnd
    obtain ⟨hChildren, hNull⟩ := Prod.mk.inj hEnd
    refine ⟨b, b', (Option.some_get belowForwarded_runs).symm, (finish_eq hParent).symm.trans hOk,
      hOk, by decide, hSlot, ?_, hNull⟩
    rw [hChildren]
    exact List.mem_cons_self

end Balancer

end Gempba
