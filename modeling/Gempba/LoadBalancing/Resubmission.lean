import Gempba.LoadBalancing.Consistency

/-!
# Handing over a node that was taken at the root level

While the children of a call are handed over one by one, a call below may
take one of them at the root level. What becomes of that child when its turn
comes is settled here, for programs that submit any of their children.
-/

namespace Gempba

set_option autoImplicit false

open NodeCore

namespace Balancer

/-- `run` up to the user's function. -/
def enter (b : Balancer) (n : NodeId) : Except Throw (Call × Balancer) := do
  if (b.node n).state ≠ .unused then throw .alreadyConsumed
  let m ← (b.node n).ensureArgsInitialized
  let b := (b.modify n fun _ => m).settle n .ran
  match (b.node n).arguments with
  | none => .error .defaultArguments
  | some args => .ok (args, { b with running := n :: b.running, executed := n :: b.executed })

/-- The end of `run`. -/
def leave (b : Balancer) (n : NodeId) : Balancer :=
  { b with running := b.running.erase n }.modify n fun m => { m with state := .forwarded }

variable {b b' : Balancer} {n m p : NodeId} {t : ThreadId} {fresh : Option NodeId} {c args : Call}
  {cs : List Call} {route : Route} {body : Body} {s : Submission}

theorem run_eq (body : Body) (b : Balancer) (n : NodeId) : run body b n =
    enter b n >>= fun x => (body x.1 (some n) x.2).map fun b => b.leave n := by
  rw [run, enter]
  split
  · rfl
  · cases (b.node n).ensureArgsInitialized with
    | error e => rfl
    | ok m =>
      simp only [invoke, bind, Except.bind, pure, Except.pure]
      cases (((b.modify n fun _ => m).settle n .ran).node n).arguments with
      | none => rfl
      | some args => simp only [Except.map, Bool.false_eq_true, if_false]; rfl

namespace Consistent

theorem enter (h : b.Consistent none) (hOk : b.enter n = .ok (args, b')) :
    b'.Consistent none := by
  rw [Balancer.enter] at hOk
  split at hOk
  · cases hOk
  obtain ⟨m, hEnsure, hOk⟩ := bind_ok hOk
  obtain ⟨hLinks, hState⟩ := ensureArgsInitialized_links hEnsure
  have hModify := h.modify (n := n) (f := fun _ => m) hLinks (by rw [hState]; exact id)
  change (match (((b.modify n fun _ => m).settle n .ran).node n).arguments with
    | none => _ | some args => _ : Except Throw (Call × Balancer)) = _ at hOk
  split at hOk
  · cases hOk
  · cases hOk
    exact hModify.same rfl rfl rfl

theorem leave (h : b.Consistent none) (n : NodeId) : (b.leave n).Consistent none := by
  have hRunning : Consistent none { b with running := b.running.erase n } := h.same rfl rfl rfl
  exact hRunning.modify rfl fun _ => (by rintro ⟨⟩)

end Consistent

/-- The user's function leaves consistent links. -/
def Keeps (body : Body) : Prop :=
  ∀ b c p b', b.Consistent none → body c p b = .ok b' → b'.Consistent none

namespace Consistent

variable (hBody : Keeps body)

include hBody

theorem run (h : b.Consistent none) (hOk : run body b n = .ok b') : b'.Consistent none := by
  rw [run_eq] at hOk
  obtain ⟨⟨args, b₁⟩, hEnter, hOk⟩ := bind_ok hOk
  obtain ⟨b₂, hRun, rfl⟩ := map_ok hOk
  exact (hBody _ _ _ _ (h.enter hEnter) hRun).leave n

theorem forward (h : b.Consistent none) (hOk : forward body b n = .ok b') :
    b'.Consistent none := by
  rw [Balancer.forward] at hOk
  split at hOk
  · rw [shouldBranch_eq] at hOk
    have hAnswer := h.answer n
    cases hBranches : (b.node n).shouldBranch.1 with
    | true =>
      rw [hBranches] at hOk
      obtain ⟨b₁, hRun, hOk⟩ := bind_ok hOk
      exact (hAnswer.run hBody hRun).pruneAndCorrectRootAfterForward hOk
    | false =>
      rw [hBranches] at hOk
      have hDiscarded : ((b.answer n).settle n .discarded).Consistent none :=
        hAnswer.same rfl rfl rfl
      exact hDiscarded.pruneAndCorrectRootAfterForward hOk
  · exact h.pruneAndCorrectRootAfterForward hOk

theorem tryLocalSubmit (h : b.Consistent none) {sent : Bool}
    (hOk : tryLocalSubmit body b n = .ok (sent, b')) : b'.Consistent none := by
  rw [Balancer.tryLocalSubmit] at hOk
  obtain ⟨⟨sent', b₁⟩, hSend, hOk⟩ := bind_ok hOk
  have h₁ := h.send hSend
  cases sent' with
  | true =>
    cases hOk
    exact h₁
  | false =>
    obtain ⟨b₂, hForward, hOk⟩ := bind_ok hOk
    cases hOk
    exact h₁.forward hBody hForward

theorem handOver (h : b.Consistent none) (hOk : handOver body b n s = .ok b') :
    b'.Consistent none := by
  cases s with
  | forward => exact h.forward hBody hOk
  | tryLocalSubmit =>
    obtain ⟨⟨sent, b₁⟩, hSubmit, rfl⟩ := map_ok hOk
    exact h.tryLocalSubmit hBody hSubmit
  | tryRemoteSubmit runnableId =>
    obtain ⟨⟨sent, b₁⟩, hSubmit, rfl⟩ := map_ok hOk
    rw [tryRemoteSubmit] at hSubmit
    split at hSubmit
    · cases hSubmit
    obtain ⟨⟨sent', b₂⟩, hSend, hSubmit⟩ := bind_ok hSubmit
    have h₂ := h.send hSend
    cases sent' with
    | true =>
      cases hSubmit
      exact h₂
    | false =>
      obtain ⟨⟨sent₃, b₃⟩, hLocal, hSubmit⟩ := bind_ok hSubmit
      cases hSubmit
      exact h₂.tryLocalSubmit hBody hLocal

theorem handOverAll {ns : List (NodeId × Submission)} (h : b.Consistent none)
    (hOk : handOverAll body ns b = .ok b') : b'.Consistent none := by
  induction ns generalizing b with
  | nil =>
    cases hOk
    exact h
  | cons e ns ih =>
    obtain ⟨b₁, hHandOver, hOk⟩ := bind_ok hOk
    exact ih (h.handOver hBody hHandOver) hOk

end Consistent

namespace Consistent

theorem attach (h : b.Consistent none) (hParent : (b.node n).parent = none)
    (hNew : ∀ e ∈ b.picks, e.node ≠ n) (hCreated : n ≤ b.uniqueIdCounter)
    (hOk : b.setParent n (some p) = .ok b') : b'.Consistent none := by
  rw [setParent] at hOk
  split at hOk
  · cases hOk
  split at hOk
  · cases hOk
  split at hOk
  · cases hOk
  rename_i hSelf _
  have hpn : p ≠ n := fun hpn => hSelf (congrArg some hpn)
  rw [if_neg (by rw [hParent]; rintro ⟨⟩)] at hOk
  cases hOk
  have hLinked : ∀ m, m ≠ n →
      ((b.modify n fun m => { m with parent := some p }).linkChild p n).node m =
        { b.node m with children := if m = p ∧ n ∉ (b.node m).children
          then (b.node m).children ++ [n] else (b.node m).children } := by
    intro m hmn
    have hKeep := modify_node_of_ne (b := b) (fun m => { m with parent := some p }) hmn
    obtain rfl | hmp := eq_or_ne m p
    · rw [linkChild, modify_node_self, hKeep]
      split <;> simp_all
    · rw [linkChild, modify_node_of_ne _ hmp, hKeep, if_neg (fun h => hmp h.1)]
  have hLinkedSelf : ((b.modify n fun m => { m with parent := some p }).linkChild p n).node n =
      { b.node n with parent := some p } := by
    rw [linkChild, modify_node_of_ne _ hpn.symm, modify_node_self]
  have hCounter : ((b.modify n fun m => { m with parent := some p }).linkChild p n).uniqueIdCounter
      = b.uniqueIdCounter := rfl
  have hPicks : ((b.modify n fun m => { m with parent := some p }).linkChild p n).picks = b.picks :=
    rfl
  generalize (b.modify n fun m => { m with parent := some p }).linkChild p n = b₁ at *
  have hOther : ∀ m, m ≠ n →
      ((b₁.modify n fun m => { m with root := b₁.rootSlot (b₁.node p).threadId }).node m).parent =
        (b.node m).parent := by
    intro m hmn
    rw [modify_node_of_ne _ hmn, hLinked m hmn]
  have hSelf :
      ((b₁.modify n fun m => { m with root := b₁.rootSlot (b₁.node p).threadId }).node n).parent =
        some p := by
    rw [modify_node_self, hLinkedSelf]
  have hLoose : ∀ m, n ∉ (b.node m).children := by
    intro m hm
    have hm := h.child m n hm
    rw [hParent] at hm
    cases hm
  have hKept : ∀ m, ∀ x ∈ (b.node m).children,
      ((b₁.modify n fun m => { m with root := b₁.rootSlot (b₁.node p).threadId }).node x).parent =
        some m := by
    intro m x hx
    rw [hOther x (ne_of_mem_of_not_mem hx (hLoose m))]
    exact h.child m x hx
  refine ⟨?_, ?_, ?_⟩
  · intro m x hx
    obtain rfl | hmn := eq_or_ne m n
    · rw [modify_node_self, hLinkedSelf] at hx
      exact hKept m x hx
    · rw [modify_node_of_ne _ hmn, hLinked m hmn] at hx
      split at hx
      · rename_i hmp
        obtain hx | hx := List.mem_append.mp hx
        · exact hKept m x hx
        · rw [List.mem_singleton.mp hx, hSelf, hmp.1]
      · exact hKept m x hx
  · intro m hm
    have hm : b.uniqueIdCounter < m := by
      rw [← hCounter]
      exact hm
    rw [hOther m (Nat.ne_of_gt (Nat.lt_of_le_of_lt hCreated hm))]
    exact h.unborn m hm
  · intro e he
    have he : e ∈ b.picks := hPicks ▸ he
    obtain ⟨hPickCreated, hRoot, hPickParent, hConsumed⟩ := h.picked e he
    refine ⟨Nat.le_trans hPickCreated (Nat.le_of_eq hCounter.symm), ?_, ?_, ?_⟩
    · rw [modify_node_of_ne _ (hNew e he), hLinked _ (hNew e he)]
      exact hRoot
    · rw [hOther _ (hNew e he)]
      exact hPickParent
    · rw [modify_node_of_ne _ (hNew e he), hLinked _ (hNew e he)]
      exact hConsumed

theorem born (h : b.Consistent none) (hCounter : b'.uniqueIdCounter = b.uniqueIdCounter + 1)
    (hPicks : b'.picks = b.picks)
    (hChildren : (b'.node (b.uniqueIdCounter + 1)).children = [])
    (hOther : ∀ m, m ≠ b.uniqueIdCounter + 1 → b'.node m = b.node m) : b'.Consistent none := by
  refine ⟨?_, ?_, ?_⟩
  · intro m x hx
    obtain rfl | hm := eq_or_ne m (b.uniqueIdCounter + 1)
    · rw [hChildren] at hx
      cases hx
    · rw [hOther m hm] at hx
      have hx := h.child m x hx
      rw [hOther x, hx]
      rintro rfl
      rw [h.unborn _ (Nat.lt_succ_self _)] at hx
      cases hx
  · intro m hm
    rw [hCounter] at hm
    rw [hOther m (Nat.ne_of_gt hm)]
    exact h.unborn m (Nat.lt_of_succ_lt hm)
  · intro e he
    rw [hPicks] at he
    obtain ⟨hCreated, hPicked⟩ := h.picked e he
    rw [hOther e.node (Nat.ne_of_lt (Nat.lt_succ_of_le hCreated)), hCounter]
    exact ⟨Nat.le_succ_of_le hCreated, hPicked⟩

theorem create {core : NodeCore Call} (h : b.Consistent none) (hParent : core.parent = none)
    (hChildren : core.children = []) {parent : Option NodeId}
    (hOk : b.create t parent core = .ok (n, b')) : b'.Consistent none := by
  have hSelf : Function.update b.node (b.uniqueIdCounter + 1) { core with threadId := t }
      (b.uniqueIdCounter + 1) = { core with threadId := t } := Function.update_self ..
  have hOther : ∀ m, m ≠ b.uniqueIdCounter + 1 → Function.update b.node (b.uniqueIdCounter + 1)
      { core with threadId := t } m = b.node m := fun m hm => Function.update_of_ne hm ..
  cases parent with
  | some p =>
    rw [Balancer.create] at hOk
    obtain ⟨b₁, hSet, hPair⟩ := map_ok hOk
    cases hPair
    have hBorn : Consistent none { b with
        uniqueIdCounter := b.uniqueIdCounter + 1
        node := Function.update b.node (b.uniqueIdCounter + 1) { core with threadId := t }
        depth := Function.update b.depth (b.uniqueIdCounter + 1) (b.depth p + 1) } :=
      h.born rfl rfl ((congrArg NodeCore.children hSelf).trans hChildren) hOther
    refine hBorn.attach ?_ ?_ (Nat.le_refl _) hSet
    · exact (congrArg NodeCore.parent hSelf).trans hParent
    · intro e he
      exact Nat.ne_of_lt (Nat.lt_succ_of_le (h.picked e he).1)
  | none =>
    cases hOk
    refine h.born rfl rfl ?_ ?_
    · rw [modify_node_self]
      exact (congrArg NodeCore.children hSelf).trans hChildren
    · intro m hm
      rw [modify_node_of_ne _ hm]
      exact hOther m hm

theorem createNodes {ns : List NodeId} (h : b.Consistent none)
    (hOk : b.createNodes t p cs = .ok (ns, b')) : b'.Consistent none := by
  induction cs generalizing b ns with
  | nil =>
    cases hOk
    exact h
  | cons c cs ih =>
    obtain ⟨⟨n, b₁⟩, hCreate, hOk⟩ := bind_ok hOk
    obtain ⟨⟨ns, b₂⟩, hRest, hOk⟩ := bind_ok hOk
    cases hOk
    have hLinks := c.links_core
    exact ih (h.create (congrArg Links.parent hLinks) (congrArg Links.children hLinks) hCreate)
      hRest

theorem parentOf {parent : Option NodeId} (h : b.Consistent none)
    (hOk : b.parentOf t parent = .ok (p, b')) : b'.Consistent none := by
  cases parent with
  | some p =>
    cases hOk
    exact h
  | none =>
    have hCreate : b.create t none .dummy = .ok (p, b') := hOk
    exact h.create rfl rfl hCreate

theorem keeps_explore : ∀ k, Keeps (explore k t) := by
  intro k
  induction k with
  | zero =>
    rintro b ⟨_, _, _⟩ p b' h hOk
    cases hOk
  | succ k ih =>
    rintro b ⟨creation, s, children⟩ parent b' h hOk
    rw [explore] at hOk
    cases children with
    | nil =>
      cases hOk
      exact h
    | cons c cs =>
      obtain ⟨⟨p, b₁⟩, hParent, hOk⟩ := bind_ok hOk
      obtain ⟨⟨ns, b₂⟩, hCreate, hOk⟩ := bind_ok hOk
      exact ((h.parentOf hParent).createNodes hCreate).handOverAll ih hOk

theorem of_reachable (h : process.Reachable b) : b.Consistent none := by
  refine h.invariant (fun _ => initial) ?_
  rintro b (⟨t, c⟩ | ⟨t, i⟩) b' - hb - hStep
  · cases hOk : function t c none b with
    | error e =>
      simp only [process, hOk] at hStep
      cases hStep
    | ok b₁ =>
      simp only [process, hOk] at hStep
      cases hStep
      exact keeps_explore _ _ _ _ _ hb hOk
  · change takeTask b t i = _ at hStep
    rw [takeTask] at hStep
    split at hStep
    · cases hStep
    · split at hStep
      · rename_i n _ b₁ hOk
        cases hStep
        rw [invoke] at hOk
        split at hOk
        · cases hOk
        · refine keeps_explore _ _ _ _ _ ?_ hOk
          exact hb.same rfl rfl rfl
      · cases hStep

end Consistent

/-- Handing over `n` comes to the user's function. -/
inductive Enters (n : NodeId) : Balancer → Submission → Call → Balancer → Prop where
  | forward {b b' : Balancer} {args : Call} (hUnused : (b.node n).state = .unused)
      (hBranches : (b.shouldBranch n).1 = true)
      (hEnter : (b.shouldBranch n).2.enter n = .ok (args, b')) : Enters n b .forward args b'
  | tryLocalSubmit {b b₁ b' : Balancer} {args : Call} (hSend : b.send n .locally = .ok (false, b₁))
      (hForward : Enters n b₁ .forward args b') : Enters n b .tryLocalSubmit args b'
  | tryRemoteSubmit {b b₁ b' : Balancer} {runnableId : ℤ} {args : Call}
      (hWorker : b.schedulerWorker = true)
      (hSend : b.send n (.remotely runnableId) = .ok (false, b₁))
      (hLocal : Enters n b₁ .tryLocalSubmit args b') :
      Enters n b (.tryRemoteSubmit runnableId) args b'

/-- The call has handed over the children before `n`, and `n` is next. -/
def HandsOver (t : ThreadId) (k : ℕ) (c : Call) (parent : Option NodeId) (b : Balancer)
    (n : NodeId) (submission : Submission) (b' : Balancer) : Prop :=
  ∃ p b₁ ns b₂ done rest, b.parentOf t parent = .ok (p, b₁) ∧
    b₁.createNodes t p c.children = .ok (ns, b₂) ∧
    ns.zip (c.children.map Call.submission) = done ++ (n, submission) :: rest ∧
    handOverAll (explore k t) done b₂ = .ok b'

/-- The call, or one below it, is about to hand over `n`. -/
inductive Reaches (t : ThreadId) :
    ℕ → Call → Option NodeId → Balancer → NodeId → Submission → Balancer → Prop where
  | own {k : ℕ} {c : Call} {parent : Option NodeId} {b b' : Balancer} {n : NodeId}
      {submission : Submission} (hHere : HandsOver t k c parent b n submission b') :
      Reaches t (k + 1) c parent b n submission b'
  | deeper {k : ℕ} {c args : Call} {parent : Option NodeId} {b b₁ b₂ b' : Balancer}
      {m n : NodeId} {submission submission' : Submission}
      (hHere : HandsOver t k c parent b m submission b₁) (hEnters : Enters m b₁ submission args b₂)
      (hBelow : Reaches t k args (some m) b₂ n submission' b') :
      Reaches t (k + 1) c parent b n submission' b'

/-- How a call without a parent node starts: from outside, or as a task of the pool. -/
inductive Starts (b : Balancer) (c : Call) : Balancer → Prop where
  | call : Starts b c b
  | task {i : ℕ} {n : NodeId} (hTask : b.threadPool[i]? = some n)
      (hArguments : (b.node n).arguments = some c) :
      Starts b c
        { b with threadPool := b.threadPool.eraseIdx i, executed := n :: b.executed }

namespace Consistent

theorem enters {c : Call} (h : b.Consistent none) (hEnters : Enters n b s c b') :
    b'.Consistent none := by
  induction hEnters with
  | forward _ _ hEnter => exact (h.answer n).enter hEnter
  | tryLocalSubmit hSend _ ih => exact ih (h.send hSend)
  | tryRemoteSubmit _ hSend _ ih => exact ih (h.send hSend)

theorem handsOver {k : ℕ} {parent : Option NodeId} (h : b.Consistent none)
    (hHere : HandsOver t k c parent b n s b') : b'.Consistent none := by
  obtain ⟨p, b₁, ns, b₂, done, rest, hParent, hCreate, -, hDone⟩ := hHere
  exact ((h.parentOf hParent).createNodes hCreate).handOverAll (keeps_explore k) hDone

theorem reaches {k : ℕ} {parent : Option NodeId} (h : b.Consistent none)
    (hReaches : Reaches t k c parent b n s b') : b'.Consistent none := by
  induction hReaches with
  | own hHere => exact h.handsOver hHere
  | deeper hHere hEnters _ ih => exact ih ((h.handsOver hHere).enters hEnters)

theorem starts {c : Call} (h : b.Consistent none) (hStarts : Starts b c b') :
    b'.Consistent none := by
  cases hStarts with
  | call => exact h
  | task _ _ => exact h.same rfl rfl rfl

end Consistent

/-- A node without a parent that is consumed. -/
structure Spent (b : Balancer) (n : NodeId) : Prop where
  parent : (b.node n).parent = none
  state : (b.node n).state ≠ .unused

theorem Spent.forward (h : b.Spent n) (body : Body) :
    forward body b n = .ok (b.pruned n) := by
  rw [Balancer.forward, if_neg h.state, pruneAndCorrectRootAfterForward, h.parent]
  exact prune_eq b n

/-- What is left of the answers after a refused attempt. -/
def remaining (answers : ℕ → Bool) : ℕ → Bool :=
  if answers 0 then fun i => answers (i + 2) else fun i => answers (i + 1)

theorem Spent.send_accepted (h : b.Spent n) (route : Route)
    (hAccepted : (b.answers 0 && b.answers 1) = true) :
    b.send n route = .error .submittedNodeConsumed := by
  obtain ⟨hLock, hOpened⟩ := Bool.and_eq_true_iff.mp hAccepted
  have hConsumed : (b.node n).isConsumed = true := bne_iff_ne.mpr h.state
  have hPush : b.ask.2.ask.2.tryPushRootLevelNode n route = .ok (false, b.ask.2.ask.2) := by
    rw [tryPushRootLevelNode, getRootLevelPendingNode]
    change (if (b.node n).parent = none then _ else _) >>= _ = _
    rw [if_pos h.parent]
    rfl
  rw [Balancer.send, sendLoop]
  change (if (!b.answers 0) = true then _ else if (!b.answers 1) = true then _ else _) = _
  rw [hLock, hOpened]
  change (b.ask.2.ask.2.tryPushRootLevelNode n route >>= _) = _
  rw [hPush]
  change (if (b.node n).isConsumed = true then _ else _) = _
  rw [if_pos hConsumed]
  rfl

theorem send_refused (b : Balancer) (n : NodeId) (route : Route)
    (hRefused : (b.answers 0 && b.answers 1) = false) :
    ∃ i j, b.send n route = .ok (false, { b with
      answers := remaining b.answers, spawnRejectedPoolFullCount := i,
      spawnRemoteRejectedCount := j }) := by
  rw [Balancer.send, sendLoop]
  change ∃ i j, (if (!b.answers 0) = true then _ else if (!b.answers 1) = true then _ else _) = _
  rw [remaining]
  cases hLock : b.answers 0 with
  | false => exact ⟨_, _, rfl⟩
  | true =>
    rw [hLock, Bool.true_and] at hRefused
    rw [hRefused]
    cases route with
    | locally => exact ⟨_, _, rfl⟩
    | remotely _ => exact ⟨_, _, rfl⟩

/-- Only the answers and the counts of refused attempts differ from what `forward` does. -/
def Skips (b : Balancer) (n : NodeId) (x : Except Throw Balancer) : Prop :=
  ∃ answers i j, x = .ok { b.pruned n with
    answers, spawnRejectedPoolFullCount := i, spawnRemoteRejectedCount := j }

theorem Spent.tryLocalSubmit (h : b.Spent n) (body : Body) :
    if b.answers 0 && b.answers 1
    then tryLocalSubmit body b n = .error .submittedNodeConsumed
    else ∃ b', tryLocalSubmit body b n = .ok (false, b') ∧ b.Skips n (.ok b') := by
  split
  · rename_i hAccepted
    rw [Balancer.tryLocalSubmit, h.send_accepted .locally hAccepted]
    rfl
  · rename_i hRefused
    obtain ⟨i, j, hSend⟩ := b.send_refused n .locally (Bool.eq_false_iff.mpr hRefused)
    let b₁ : Balancer := { b with
      answers := remaining b.answers
      spawnRejectedPoolFullCount := i
      spawnRemoteRejectedCount := j }
    have hSpent : b₁.Spent n := ⟨h.parent, h.state⟩
    refine ⟨b₁.pruned n, ?_, remaining b.answers, i, j, rfl⟩
    rw [Balancer.tryLocalSubmit, hSend]
    change (Balancer.forward body b₁ n >>= _) = _
    rw [hSpent.forward]
    rfl

/-- Whether one of the attempts of a submission takes the lock and finds a free thread of the
pool or opens the channel. -/
def accepted : Submission → (ℕ → Bool) → Bool
  | .forward, _ => false
  | .tryLocalSubmit, answers => answers 0 && answers 1
  | .tryRemoteSubmit _, answers =>
    answers 0 && answers 1 || remaining answers 0 && remaining answers 1

theorem Spent.handOver (h : b.Spent n) (body : Body)
    (hWorker : s.isRemote = true → b.schedulerWorker = true) :
    if accepted s b.answers
    then handOver body b n s = .error .submittedNodeConsumed
    else b.Skips n (handOver body b n s) := by
  cases s with
  | forward => exact ⟨_, _, _, h.forward body⟩
  | tryLocalSubmit =>
    have hLocal := h.tryLocalSubmit body
    rw [accepted]
    split at hLocal
    · rename_i hAccepted
      rw [if_pos hAccepted, Balancer.handOver, hLocal]
      rfl
    · rename_i hRefused
      obtain ⟨b', hOk, hSkips⟩ := hLocal
      rw [if_neg hRefused, Balancer.handOver, hOk]
      exact hSkips
  | tryRemoteSubmit runnableId =>
    rw [Balancer.handOver, Balancer.tryRemoteSubmit, hWorker rfl, accepted]
    change if _ then Except.map Prod.snd (b.send n (.remotely runnableId) >>= _) = _ else
      b.Skips n (Except.map Prod.snd (b.send n (.remotely runnableId) >>= _))
    cases hFirst : b.answers 0 && b.answers 1 with
    | true =>
      rw [h.send_accepted _ hFirst]
      rfl
    | false =>
      obtain ⟨i, j, hSend⟩ := b.send_refused n (.remotely runnableId) hFirst
      let b₁ : Balancer := { b with
        answers := remaining b.answers
        spawnRejectedPoolFullCount := i
        spawnRemoteRejectedCount := j }
      have hSpent : b₁.Spent n := ⟨h.parent, h.state⟩
      have hLocal := hSpent.tryLocalSubmit body
      rw [hSend, Bool.false_or]
      change if _ then Except.map Prod.snd (Balancer.tryLocalSubmit body b₁ n >>= _) = _ else
        b.Skips n (Except.map Prod.snd (Balancer.tryLocalSubmit body b₁ n >>= _))
      split at hLocal
      · rename_i hAccepted
        rw [if_pos hAccepted, hLocal]
        rfl
      · rename_i hRefused
        obtain ⟨b', hOk, hSkips⟩ := hLocal
        rw [if_neg hRefused, hOk]
        exact hSkips

theorem Consistent.spent (h : b.Consistent none) (hPicked : n ∈ b.picks.map Pick.node)
    (answers : ℕ → Bool) : Spent { b with answers } n := by
  obtain ⟨p, hp, rfl⟩ := List.mem_map.mp hPicked
  obtain ⟨-, -, hParent, hState⟩ := h.picked p hp
  refine ⟨hParent, ?_⟩
  obtain hFresh | hState := hState
  · cases hFresh
  · exact hState

/-- A child that was taken at the root level is never run or handed out again when its turn
comes. A submission of it throws if one of its attempts is accepted, and skips it otherwise. -/
theorem resubmission {σ σ' : Balancer} (hσ : process.Reachable σ) (hStarts : Starts σ c σ')
    (hReaches : Reaches t c.depth c none σ' n s b)
    (hPicked : n ∈ b.picks.map Pick.node)
    (hWorker : s.isRemote = true → b.schedulerWorker = true) (body : Body)
    (answers : ℕ → Bool) :
    forward body { b with answers } n = .ok (pruned { b with answers } n) ∧
      if accepted s answers
      then handOver body { b with answers } n s = .error .submittedNodeConsumed
      else Skips { b with answers } n (handOver body { b with answers } n s) := by
  have hConsistent := ((Consistent.of_reachable hσ).starts hStarts).reaches hReaches
  have hSpent := hConsistent.spent hPicked answers
  exact ⟨hSpent.forward body, hSpent.handOver body hWorker⟩

/-- Like `threeBranches`, but every child of the outer call is submitted. -/
def threeSubmitted : Call :=
  let leaf (s : Submission) := Call.mk (.createExplicitNode false) s []
  let pair := Call.mk (.createExplicitNode false) .tryLocalSubmit
    [leaf .tryLocalSubmit, leaf .forward]
  .mk (.createExplicitNode false) .forward [pair, leaf .tryLocalSubmit, leaf .tryLocalSubmit]

/-- `threeSubmitted` up to the submission of its second child. -/
def firstSubmission : Except Throw Balancer := do
  let (_, b) ← (secondLock.seeded 0).createNodes 0 1 threeSubmitted.children
  handOver (explore 2 0) b 2 .tryLocalSubmit

theorem threeSubmitted_reaches : ∃ b, Reaches 0 threeSubmitted.depth threeSubmitted none secondLock
    3 .tryLocalSubmit b ∧ 3 ∈ b.picks.map Pick.node := by
  obtain ⟨b₁, b, hCreate, hHandOver⟩ : ∃ b₁ b,
      (secondLock.seeded 0).createNodes 0 1 threeSubmitted.children = .ok ([2, 3, 4], b₁) ∧
        handOver (explore 2 0) b₁ 2 .tryLocalSubmit = .ok b := ⟨_, _, rfl, rfl⟩
  refine ⟨b, .own ⟨1, secondLock.seeded 0, [2, 3, 4], b₁, [(2, .tryLocalSubmit)],
    [(4, .tryLocalSubmit)], createDummy_eq, hCreate, rfl, ?_⟩, ?_⟩
  · rw [handOverAll]
    change handOver (explore 2 0) b₁ 2 .tryLocalSubmit >>= _ = _
    rw [hHandOver]
    rfl
  · have hPicks : firstSubmission.map (fun b => b.picks.map Pick.node) = .ok [4, 3] := by decide
    have hFirst : firstSubmission = .ok b := by
      rw [firstSubmission, hCreate]
      exact hHandOver
    rw [hFirst] at hPicks
    have hPicks : b.picks.map Pick.node = [4, 3] := Except.ok.inj hPicks
    rw [hPicks]
    decide

/-- Whether the submission of the second child throws is up to the answers of that moment. -/
theorem resubmission_timed : ∃ b body, process.Reachable secondLock ∧
    Reaches 0 threeSubmitted.depth threeSubmitted none secondLock 3 .tryLocalSubmit b ∧
    3 ∈ b.picks.map Pick.node ∧
    handOver body { b with answers := fun _ => true } 3 .tryLocalSubmit =
      .error .submittedNodeConsumed ∧
    ∃ b', handOver body { b with answers := fun _ => false } 3 .tryLocalSubmit = .ok b' := by
  obtain ⟨b, hReaches, hPicked⟩ := threeSubmitted_reaches
  have hReachable : process.Reachable secondLock := .start ⟨_, false, rfl⟩
  have hConsistent := (Consistent.of_reachable hReachable).reaches hReaches
  refine ⟨b, explore 2 0, hReachable, hReaches, hPicked, ?_, ?_⟩
  · exact (hConsistent.spent hPicked fun _ => true).handOver (s := .tryLocalSubmit)
      (explore 2 0) (by rintro ⟨⟩)
  · obtain ⟨_, _, _, hSkips⟩ :=
      (hConsistent.spent hPicked fun _ => false).handOver (s := .tryLocalSubmit)
        (explore 2 0) (by rintro ⟨⟩)
    exact ⟨_, hSkips⟩

theorem resubmission_threeSubmitted : ∃ b : Balancer, 3 ∈ b.picks.map Pick.node ∧
    handOver (explore 2 0) { b with answers := fun _ => true } 3 .tryLocalSubmit =
      .error .submittedNodeConsumed := by
  obtain ⟨b, hReaches, hPicked⟩ := threeSubmitted_reaches
  exact ⟨b, hPicked, (resubmission (.start ⟨_, false, rfl⟩) .call hReaches hPicked (by rintro ⟨⟩)
    (explore 2 0) fun _ => true).2⟩

end Balancer

end Gempba
