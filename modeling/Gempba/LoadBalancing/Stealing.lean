import Gempba.LoadBalancing.WorkStealing

/-!
# Handing a node over to the work stealing balancer

Whichever way a node is submitted and whatever is answered, it is skipped,
started, pooled or pushed, and no other node is touched.
-/

namespace Gempba

set_option autoImplicit false

/-- What the plain recursion asks of the node of a call. -/
def Call.branchesInto (c : Call) : Bool := c.core.shouldBranch.1

namespace NodeCore

variable {α : Type} {n m : NodeCore α}

theorem Untouched.of_unlinked (h : n.unlinked = m.unlinked) (hm : m.Untouched) : n.Untouched := by
  have hUnlinked : n.unlinked.Untouched := by
    rw [h]
    exact ⟨hm.state, hm.not_dummy, hm.not_asked, hm.ready⟩
  exact ⟨hUnlinked.state, hUnlinked.not_dummy, hUnlinked.not_asked, hUnlinked.ready⟩

end NodeCore

namespace Balancer

/-- Nothing has changed but node `n`, the links and what is not of the tasks. -/
structure Apart (n : NodeId) (b b' : Balancer) : Prop where
  node : ∀ m, m ≠ n → (b'.node m).unlinked = (b.node m).unlinked
  counter : b.uniqueIdCounter ≤ b'.uniqueIdCounter
  worker : b'.schedulerWorker = b.schedulerWorker
  pool : b'.threadPool = b.threadPool

variable {b b' b'' : Balancer} {n : NodeId} {c : Call}

theorem Apart.trans (h : Apart n b b') (h' : Apart n b' b'') : Apart n b b'' :=
  ⟨fun m hm => (h'.node m hm).trans (h.node m hm), Nat.le_trans h.counter h'.counter,
    h'.worker.trans h.worker, h'.pool.trans h.pool⟩

theorem Apart.arguments {m : NodeId} (h : Apart n b b') (hm : m ≠ n) :
    (b'.node m).arguments = (b.node m).arguments :=
  have hUnlinked := h.node m hm
  calc
    (b'.node m).arguments = (b'.node m).unlinked.arguments := rfl
    _ = (b.node m).unlinked.arguments := by rw [hUnlinked]
    _ = (b.node m).arguments := rfl

theorem apart_modify (n : NodeId) (f : NodeCore Call → NodeCore Call) (b : Balancer) :
    Apart n b (b.modify n f) :=
  ⟨fun _ hm => congrArg NodeCore.unlinked (modify_node_of_ne f hm), Nat.le_refl _, rfl, rfl⟩

theorem unlinked_pruned (b : Balancer) (n m : NodeId) :
    ((b.pruned n).node m).unlinked = (b.node m).unlinked := by
  obtain rfl | hm := eq_or_ne m n
  · rw [pruned_node_self]
    rfl
  · obtain hp | hp := eq_or_ne (b.node n).parent (some m)
    · rw [pruned_node_parent hp hm]
      rfl
    · rw [pruned_node_of_ne hm hp]

theorem apart_pruned (n : NodeId) (b : Balancer) : Apart n b (b.pruned n) :=
  ⟨fun m _ => unlinked_pruned b n m, Nat.le_refl _, rfl, rfl⟩

theorem apart_ask (n : NodeId) (b : Balancer) : Apart n b b.ask.2 :=
  ⟨fun _ _ => rfl, Nat.le_refl _, rfl, rfl⟩

theorem apart_reject (n : NodeId) (b : Balancer) (route : Route) : Apart n b (b.reject route) := by
  cases route with
  | locally => exact ⟨fun _ _ => rfl, Nat.le_refl _, rfl, rfl⟩
  | remotely runnableId => exact ⟨fun _ _ => rfl, Nat.le_refl _, rfl, rfl⟩

/-- `n` was created for `c` and has not been touched since. -/
def Fresh (b : Balancer) (n : NodeId) (c : Call) : Prop :=
  (b.node n).unlinked = c.core.unlinked

theorem Fresh.untouched (h : b.Fresh n c) : (b.node n).Untouched :=
  NodeCore.Untouched.of_unlinked h c.untouched_core

theorem Fresh.core (h : b.Fresh n c) {β : Type} (f : NodeCore Call → β)
    (hf : ∀ m, f m.unlinked = f m) : f (b.node n) = f c.core := by
  rw [← hf, h, hf]

theorem Fresh.shouldBranch (h : b.Fresh n c) :
    (b.node n).shouldBranch.1 = c.branchesInto := by
  have hOffered : (b.node n).offered = c.core.offered := h.core NodeCore.offered fun _ => rfl
  rw [h.untouched.shouldBranch.1, Call.branchesInto, c.untouched_core.shouldBranch.1, hOffered]

theorem Fresh.argsSerializer (h : b.Fresh n c) :
    (b.node n).argsSerializer = c.creation.serializable := by
  rw [← c.argsSerializer_core]
  exact h.core NodeCore.argsSerializer fun _ => rfl

theorem setParent_orphan {p : NodeId} (hDummy : (b.node n).isDummy = false) (hne : n ≠ p)
    (hChildren : (b.node n).children = []) (hParent : (b.node n).parent = none) :
    ∃ b', b.setParent n (some p) = .ok b' ∧ (∀ m, (b'.node m).unlinked = (b.node m).unlinked) ∧
      Apart n b b' ∧ b'.uniqueIdCounter = b.uniqueIdCounter := by
  have hSelf : some p ≠ some n := fun h => hne (Option.some.inj h).symm
  rw [setParent, if_neg (by simp [hDummy]), if_neg hSelf, if_neg (by simp [hChildren]),
    if_neg (by simp [hParent])]
  have hUnlinked : ∀ m, (((((b.modify n fun m =>
      { m with parent := some p }).linkChild p n).modify n
      fun m => { m with root := rootSlot ((b.modify n fun m =>
        { m with parent := some p }).linkChild p n) (((b.modify n fun m =>
        { m with parent := some p }).linkChild p n).node p).threadId }).node m).unlinked) =
      (b.node m).unlinked := by
    intro m
    obtain rfl | hmn := eq_or_ne m n
    · simp [linkChild, Balancer.modify, hne, NodeCore.unlinked]
    · obtain rfl | hmp := eq_or_ne m p
      · simp [linkChild, Balancer.modify, hmn, NodeCore.unlinked]
      · simp [linkChild, Balancer.modify, hmn, hmp]
  exact ⟨_, rfl, hUnlinked, ⟨fun m _ => hUnlinked m, Nat.le_refl _, rfl, rfl⟩, rfl⟩

theorem construct_node (b : Balancer) (t : ThreadId) (core : NodeCore Call) :
    (b.construct t core).node (b.uniqueIdCounter + 1) = { core with threadId := t } :=
  Function.update_self ..

theorem apart_construct (b : Balancer) (t : ThreadId) (core : NodeCore Call) :
    Apart (b.uniqueIdCounter + 1) b (b.construct t core) :=
  ⟨fun _ hm => congrArg NodeCore.unlinked (Function.update_of_ne hm _ b.node), Nat.le_succ _,
    rfl, rfl⟩

theorem createRootless_fresh {parent : Option NodeId}
    (hParent : ∀ p, parent = some p → p ≤ b.uniqueIdCounter) (t : ThreadId) (c : Call) :
    ∃ b', b.createRootless t parent c.core = .ok (b.uniqueIdCounter + 1, b') ∧
      Apart (b.uniqueIdCounter + 1) b b' ∧ b'.uniqueIdCounter = b.uniqueIdCounter + 1 ∧
      b'.Fresh (b.uniqueIdCounter + 1) c := by
  have hNew := apart_construct b t c.core
  have hNode := construct_node b t c.core
  have hFresh : (b.construct t c.core).Fresh (b.uniqueIdCounter + 1) c :=
    (congrArg NodeCore.unlinked hNode).trans rfl
  cases parent with
  | none => exact ⟨_, rfl, hNew, rfl, hFresh⟩
  | some p =>
    have hp : p ≤ b.uniqueIdCounter := hParent p rfl
    have hLinks := c.links_core
    obtain ⟨b', hOk, hUnlinked, hApart, hCounter⟩ := setParent_orphan (p := p)
      ((congrArg NodeCore.isDummy hNode).trans c.untouched_core.not_dummy)
      (Nat.ne_of_gt (Nat.lt_succ_of_le hp))
      ((congrArg NodeCore.children hNode).trans (congrArg NodeCore.Links.children hLinks))
      ((congrArg NodeCore.parent hNode).trans (congrArg NodeCore.Links.parent hLinks))
    refine ⟨b', ?_, hNew.trans hApart, hCounter, (hUnlinked _).trans hFresh⟩
    rw [createRootless, hOk]
    rfl

/-- What `should_branch` leaves of a fresh node that branches. -/
structure Prepared (b : Balancer) (n : NodeId) (c : Call) : Prop where
  state : (b.node n).state = .unused
  flag : (b.node n).initializationFlag = .initialized
  arguments : (b.node n).arguments = some c
  argsSerializer : (b.node n).argsSerializer = c.creation.serializable

theorem Fresh.prepared (h : b.Fresh n c) (hc : c.branchesInto = true) :
    Prepared (b.shouldBranch n).2 n c := by
  have hOffered : (b.node n).offered = c.core.offered := h.core NodeCore.offered fun _ => rfl
  rw [Call.branchesInto, c.untouched_core.shouldBranch.1] at hc
  obtain ⟨d, hd⟩ := Option.isSome_iff_exists.mp hc
  have hdc : d = c := Call.offered_core hd
  have hAnswered := h.untouched.shouldBranch.2
  obtain ⟨hFlag, hArguments⟩ := hAnswered.ready d (hOffered.trans hd)
  have hNode : (b.shouldBranch n).2.node n = (b.node n).shouldBranch.2 :=
    modify_node_self (n := n) fun m => m.shouldBranch.2
  refine ⟨?_, ?_, ?_, ?_⟩
  · rw [hNode]
    exact hAnswered.state
  · rw [hNode]
    exact hFlag
  · rw [hNode, hArguments, hdc]
  · rw [hNode, hAnswered.argsSerializer, h.argsSerializer]

theorem apart_shouldBranch (n : NodeId) (b : Balancer) : Apart n b (b.shouldBranch n).2 :=
  apart_modify n (fun m => m.shouldBranch.2) b

theorem Prepared.ensureArgsInitialized (h : b.Prepared n c) :
    (b.node n).ensureArgsInitialized = .ok (b.node n) :=
  NodeCore.ensureArgsInitialized_of_initialized h.flag

theorem Prepared.delegateLocally (h : b.Prepared n c) : ∃ b',
    Apart n b b' ∧ (b'.node n).arguments = some c ∧
      b.delegateLocally n = .ok { b' with threadPool := b'.threadPool ++ [n] } := by
  have hPushed : ((b.modify n fun _ => { b.node n with state := .pushed }).node n).arguments =
      some c := by
    rw [modify_node_self]
    exact h.arguments
  refine ⟨{ (b.modify n fun _ => { b.node n with state := .pushed }).settle n .handedToPool with
    threadRequestCount := b.threadRequestCount + 1 }, ?_, hPushed, ?_⟩
  · exact (apart_modify n (fun _ => { b.node n with state := .pushed }) b).trans
      ⟨fun _ _ => rfl, Nat.le_refl _, rfl, rfl⟩
  · rw [Balancer.delegateLocally, if_neg (by rw [h.state]; simp)]
    change (b.node n).ensureArgsInitialized >>= _ = _
    rw [h.ensureArgsInitialized]
    rfl

end Balancer

namespace Stealer

open Balancer

variable {k : ℕ} {P : Type} {codec : Codec P} {s s' : Stealer k P} {t : Fin k} {n : NodeId}
  {c : Call}

/-- What can become of a fresh node that is submitted. -/
inductive Handled (codec : Codec P) (t : Fin k) (n : NodeId) (c : Call) (s : Stealer k P) :
    Stealer k P → Prop
  | skipped (b : Balancer) (hb : Apart n s.balancer b) (hc : c.branchesInto = false) :
      Handled codec t n c s { s with balancer := b }
  | started (b : Balancer) (hb : Apart n s.balancer b) (hc : c.branchesInto = true) :
      Handled codec t n c s (call { s with balancer := b } t (some n) c)
  | pooled (b : Balancer) (hb : Apart n s.balancer b) (hc : c.branchesInto = true)
      (hn : (b.node n).arguments = some c) :
      Handled codec t n c s { s with
        balancer := { b with threadPool := b.threadPool ++ [n] } }
  | pushed (b : Balancer) (hb : Apart n s.balancer b) (hc : c.branchesInto = true)
      (runnableId : ℤ) (hId : c.submission = .tryRemoteSubmit runnableId) :
      Handled codec t n c s { s with
        balancer := b, pushed := s.pushed ++ [(runnableId, codec.serialize c)] }

theorem Handled.of_apart {b : Balancer} (hb : Apart n s.balancer b)
    (h : Handled codec t n c { s with balancer := b } s') : Handled codec t n c s s' := by
  cases h with
  | skipped b' hb' hc => exact .skipped b' (hb.trans hb') hc
  | started b' hb' hc => exact .started b' (hb.trans hb') hc
  | pooled b' hb' hc hn => exact .pooled b' (hb.trans hb') hc hn
  | pushed b' hb' hc runnableId hId => exact .pushed b' (hb.trans hb') hc runnableId hId

theorem prune_eq (s : Stealer k P) (n : NodeId) :
    s.prune n = .ok { s with balancer := s.balancer.pruned n } := by
  rw [prune, Balancer.prune_eq]
  rfl

theorem fresh_pruned {b : Balancer} (h : b.Fresh n c) : (b.pruned n).Fresh n c :=
  (unlinked_pruned b n n).trans h

theorem run_prepared {b : Balancer} (h : b.Prepared n c) :
    run { s with balancer := b } t n = .ok (call { s with balancer := b } t (some n) c) := by
  have hSame : (b.modify n fun _ => b.node n) = b := by
    rw [Balancer.modify, Function.update_eq_self]
  rw [run, if_neg (by simp [h.state])]
  change (b.node n).ensureArgsInitialized >>= _ = _
  rw [h.ensureArgsInitialized]
  change invoke { s with balancer := b.modify n fun _ => b.node n } t n false = _
  rw [hSame, invoke]
  simp only [h.arguments]
  rfl

variable (codec t)

theorem forward_handled (h : s.balancer.Fresh n c) :
    ∃ s', s.forward t n = .ok s' ∧ Handled codec t n c s s' := by
  rw [forward, if_pos h.untouched.state]
  have hAnswer := h.shouldBranch
  cases hc : c.branchesInto with
  | false =>
    have hBranch : (s.shouldBranch n).1 = false := hAnswer.trans hc
    refine ⟨{ s with balancer := (s.balancer.shouldBranch n).2.pruned n }, ?_, ?_⟩
    · simp only [hBranch]
      exact prune_eq (s.shouldBranch n).2 n
    · exact .skipped _ ((apart_shouldBranch n s.balancer).trans (apart_pruned n _)) hc
  | true =>
    have hBranch : (s.shouldBranch n).1 = true := hAnswer.trans hc
    have hPrepared := h.prepared hc
    refine ⟨call { s with balancer := (s.balancer.shouldBranch n).2 } t (some n) c, ?_, ?_⟩
    · simp only [hBranch]
      exact run_prepared hPrepared
    · exact .started _ (apart_shouldBranch n s.balancer) hc

theorem delegate_handled {b : Balancer} (hb : Apart n s.balancer b) (hPrepared : b.Prepared n c)
    (hc : c.branchesInto = true) {route : Route}
    (hRoute : ∀ runnableId, route = .remotely runnableId →
      c.submission = .tryRemoteSubmit runnableId ∧ c.creation.serializable = true) :
    ∃ s', delegate codec { s with balancer := b } n route = .ok s' ∧
      Handled codec t n c s s' := by
  cases route with
  | locally =>
    obtain ⟨b', hb', hArguments, hOk⟩ := hPrepared.delegateLocally
    refine ⟨_, ?_, .pooled b' (hb.trans hb') hc hArguments⟩
    rw [delegate, delegateLocally, hOk]
    rfl
  | remotely runnableId =>
    obtain ⟨hId, hSerializable⟩ := hRoute runnableId rfl
    refine ⟨_, ?_, .pushed (b.modify n fun _ => { b.node n with state := .sentToAnotherProcess })
      (hb.trans (apart_modify n _ b)) hc runnableId hId⟩
    rw [delegate, delegateRemotely, if_neg (by simp [hPrepared.state])]
    change (b.node n).ensureArgsInitialized >>= _ = _
    rw [hPrepared.ensureArgsInitialized]
    change Balancer.serialize codec (b.node n) >>= _ = _
    have hPacket : Balancer.serialize codec (b.node n) = .ok (codec.serialize c) := by
      rw [Balancer.serialize, NodeCore.serialize_of_initialized hPrepared.flag
        (hPrepared.argsSerializer.trans hSerializable), hPrepared.arguments]
      rfl
    rw [hPacket]
    rfl

theorem send_handled (route : Route) (h : s.balancer.Fresh n c)
    (hRoute : ∀ runnableId, route = .remotely runnableId →
      c.submission = .tryRemoteSubmit runnableId ∧ c.creation.serializable = true) :
    (∃ b, Apart n s.balancer b ∧ b.node = s.balancer.node ∧
      s.send codec n route = .ok (false, { s with balancer := b })) ∨
    ∃ s', s.send codec n route = .ok (true, s') ∧ Handled codec t n c s s' := by
  rw [send]
  cases hLock : s.ask.1 with
  | false =>
    refine .inl ⟨s.balancer.ask.2, apart_ask n s.balancer, rfl, ?_⟩
    simp only [hLock]
    rfl
  | true =>
    cases hOpened : s.ask.2.ask.1 with
    | false =>
      refine .inl ⟨s.balancer.ask.2.ask.2.reject route, ?_, ?_, ?_⟩
      · exact ((apart_ask n _).trans (apart_ask n _)).trans (apart_reject n _ route)
      · cases route with
        | locally => rfl
        | remotely runnableId => rfl
      · simp only [hLock, hOpened]
        rfl
    | true =>
      right
      have hFresh : s.balancer.ask.2.ask.2.Fresh n c := h
      have hPruned := fresh_pruned hFresh
      have hApart : Apart n s.balancer (s.balancer.ask.2.ask.2.pruned n) :=
        ((apart_ask n _).trans (apart_ask n _)).trans (apart_pruned n _)
      have hUnconsumed : (s.ask.2.ask.2.balancer.node n).isConsumed = false :=
        NodeCore.isConsumed_eq_false hFresh.untouched.state
      simp only [hLock, hOpened, hUnconsumed]
      simp only [Bool.not_true, Bool.false_eq_true, if_false]
      rw [prune_eq]
      change ∃ s', (if (s.balancer.ask.2.ask.2.pruned n).shouldBranch n |>.1 then _ else _) = _ ∧ _
      have hBranch := hPruned.shouldBranch
      cases hc : c.branchesInto with
      | false =>
        have hBranch : ((s.balancer.ask.2.ask.2.pruned n).shouldBranch n).1 = false :=
          hBranch.trans hc
        rw [hBranch]
        refine ⟨_, rfl, ?_⟩
        exact .skipped _ ((hApart.trans (apart_shouldBranch n _)).trans (apart_modify n _ _)) hc
      | true =>
        have hBranch : ((s.balancer.ask.2.ask.2.pruned n).shouldBranch n).1 = true :=
          hBranch.trans hc
        rw [hBranch]
        obtain ⟨s', hOk, hHandled⟩ := delegate_handled codec t
          (hApart.trans (apart_shouldBranch n _)) (hPruned.prepared hc) hc hRoute
        refine ⟨s', ?_, hHandled⟩
        exact (congrArg (fun x => x >>= fun s => pure (true, s)) hOk).trans rfl

theorem tryLocalSubmit_handled (h : s.balancer.Fresh n c) :
    ∃ sent s', s.tryLocalSubmit codec t n = .ok (sent, s') ∧ Handled codec t n c s s' := by
  rw [tryLocalSubmit]
  rcases send_handled codec t .locally h (by rintro _ ⟨⟩) with
    ⟨b, hApart, hNode, hOk⟩ | ⟨s', hOk, hHandled⟩
  · have hFresh : b.Fresh n c := by
      rw [Fresh, hNode]
      exact h
    obtain ⟨s', hForward, hHandled⟩ := forward_handled codec t
      (s := { s with balancer := b }) hFresh
    refine ⟨false, s', ?_, hHandled.of_apart hApart⟩
    rw [hOk]
    exact (congrArg (fun x => x >>= fun s => pure (false, s)) hForward).trans rfl
  · refine ⟨true, s', ?_, hHandled⟩
    rw [hOk]
    rfl

/-- Every stage of a submission finds the node as fresh as the one before it. -/
theorem handOver_handled (h : s.balancer.Fresh n c) (hWorker : s.balancer.schedulerWorker = true)
    (hSend : c.sendable = true) :
    ∃ s', s.handOver codec t n c.submission = .ok s' ∧ Handled codec t n c s s' := by
  cases hSubmission : c.submission with
  | forward => exact forward_handled codec t h
  | tryLocalSubmit =>
    obtain ⟨sent, s', hOk, hHandled⟩ := tryLocalSubmit_handled codec t h
    refine ⟨s', ?_, hHandled⟩
    rw [handOver, hOk]
    rfl
  | tryRemoteSubmit runnableId =>
    have hSerializable : c.creation.serializable = true := by
      have hSelf := Call.all_self hSend
      rw [hSubmission] at hSelf
      exact hSelf
    rw [handOver, tryRemoteSubmit, if_neg (by simp [hWorker])]
    rcases send_handled codec t (.remotely runnableId) h
      (by
        rintro _ ⟨⟩
        exact ⟨hSubmission, hSerializable⟩) with
      ⟨b, hApart, hNode, hOk⟩ | ⟨s', hOk, hHandled⟩
    · have hFresh : b.Fresh n c := by
        rw [Fresh, hNode]
        exact h
      obtain ⟨sent, s', hLocal, hHandled⟩ := tryLocalSubmit_handled codec t
        (s := { s with balancer := b }) hFresh
      refine ⟨s', ?_, hHandled.of_apart hApart⟩
      change Except.map Prod.snd (s.send codec n (.remotely runnableId) >>= _) = _
      rw [hOk]
      change Except.map Prod.snd (tryLocalSubmit codec { s with balancer := b } t n >>= _) = _
      rw [hLocal]
      rfl
    · refine ⟨s', ?_, hHandled⟩
      change Except.map Prod.snd (s.send codec n (.remotely runnableId) >>= _) = _
      rw [hOk]
      rfl

end Stealer

end Gempba
