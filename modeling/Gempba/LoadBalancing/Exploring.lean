import Gempba.LoadBalancing.Creating

/-!
# A call and the calls below it

A call that is given an active node creates the nodes of its children and
hands them over. It does not throw, and it leaves its own node behind with no
child to hand over. The induction is on the fuel, which bounds the depth of
the call.
-/

namespace Gempba

set_option autoImplicit false

open NodeCore Spine Gempba.Frame

namespace Balancer

variable {far wide : Bool} {t : ThreadId} {b b' : Balancer} {G F S : List Frame} {f : Frame}
  {n p : NodeId} {ns : List NodeId} {c : Call} {cs : List Call} {s : Submission}
  {body : Body} {k j : ℕ}

theorem Live.handOver (hBody : Runs far wide t k body)
    (h : Live far wide t b (S ++ [f]) ⟨n, [], k⟩ [n]) (hn : ∀ e ∈ S ++ [f], n ∉ e.remaining)
    (hRemote : s.isRemote = true → far = true ∧ b.schedulerWorker = true) :
    ∃ b', handOver body b n s = .ok b' ∧ Ready far wide t b' S f [] fun _ => True := by
  have hLocal : ∀ {b}, Live far wide t b (S ++ [f]) ⟨n, [], k⟩ [n] →
      ∃ r b', tryLocalSubmit body b n = .ok (r, b') ∧
        Ready far wide t b' S f [] fun _ => True := by
    intro b h
    have hRoute : Route.locally ≠ .locally → far = true := absurd rfl
    obtain ⟨sent, b₁, hSend, hLive, hReady⟩ := h.send hn hRoute
    rw [tryLocalSubmit, hSend]
    cases sent with
    | true => exact ⟨true, b₁, rfl, hReady rfl⟩
    | false =>
      obtain ⟨b₂, hForward, R⟩ := (hLive rfl).forward hBody hn
      refine ⟨false, b₂, ?_, R⟩
      change (Balancer.forward body b₁ n >>= fun b => _) = _
      rw [hForward]
      rfl
  cases s with
  | forward => exact h.forward hBody hn
  | tryLocalSubmit =>
    obtain ⟨r, b', hOk, R⟩ := hLocal h
    refine ⟨b', ?_, R⟩
    rw [Balancer.handOver, hOk]
    rfl
  | tryRemoteSubmit runnableId =>
    obtain ⟨hFar, hWorker⟩ := hRemote rfl
    have hRoute : Route.remotely runnableId ≠ .locally → far = true := fun _ => hFar
    obtain ⟨sent, b₁, hSend, hLive, hReady⟩ := h.send hn hRoute
    rw [Balancer.handOver, tryRemoteSubmit, hWorker]
    change ∃ b', Except.map _ (b.send n (.remotely runnableId) >>= fun x => _) = _ ∧ _
    rw [hSend]
    cases sent with
    | true => exact ⟨b₁, rfl, hReady rfl⟩
    | false =>
      obtain ⟨r, b₂, hOk, R⟩ := hLocal (hLive rfl)
      refine ⟨b₂, ?_, R⟩
      change Except.map _ (tryLocalSubmit body b₁ n >>= fun x => _) = _
      rw [hOk]
      rfl

theorem Ready.handOverAll (hBody : Runs far wide t k body)
    (R : Ready far wide t b S ⟨p, ns, k⟩ [] fun _ => True) (hNodup : ns.Nodup)
    (hn : ∀ e ∈ S, ∀ n ∈ ns, n ∉ e.remaining) {l : List Submission}
    (hForward : ∀ s ∈ l, s = .forward) (hLength : l.length = ns.length) :
    ∃ b', handOverAll body (ns.zip l) b = .ok b' ∧
      Ready far wide t b' S ⟨p, [], k⟩ [] fun _ => True := by
  induction ns generalizing b l with
  | nil => exact ⟨b, rfl, R⟩
  | cons n ns ih =>
    obtain ⟨s, l, rfl⟩ := List.exists_cons_of_length_eq_add_one hLength
    obtain ⟨hnns, hNodup⟩ := List.nodup_cons.mp hNodup
    obtain ⟨b₁, hOk, R₁⟩ := R.forward hBody (by
      intro e he
      obtain he | he := List.mem_append.mp he
      · exact hn e he n List.mem_cons_self
      · rw [List.mem_singleton.mp he]
        exact hnns)
    obtain ⟨b', hAll, R'⟩ := ih R₁ hNodup (fun e he m hm => hn e he m (List.mem_cons_of_mem _ hm))
      (fun s hs => hForward s (List.mem_cons_of_mem _ hs)) (Nat.succ.inj hLength)
    refine ⟨b', ?_, R'⟩
    rw [hForward s List.mem_cons_self, List.zip_cons_cons, Balancer.handOverAll]
    change (Balancer.forward body b n >>= fun b => _) = _
    rw [hOk]
    exact hAll

theorem Ready.standing (R : Ready far wide t b S ⟨p, [], k⟩ [] fun _ => True) :
    Standing far wide t b (S ++ [⟨p, [], k⟩]) := by
  obtain ⟨G, F, w, R⟩ := R
  obtain ⟨hStack, rfl⟩ | ⟨y, hy, -, -, -⟩ := R.stack
  · exact ⟨G, F, hStack, R.active, R.rooted⟩
  · cases hy

theorem Active.branch (hBody : Runs far wide t k body)
    (A : Active far wide t b G (F ++ [⟨p, [], j⟩]) []) (hRooted : wide = true → b.Rooted F)
    (hc : c.Suits far wide b.schedulerWorker) (hDepth : c.depth ≤ k + 1)
    (hChildren : c.children ≠ []) :
    ∃ ns b₁ b', b.createNodes t p c.children = .ok (ns, b₁) ∧
      handOverAll body (ns.zip (c.children.map Call.submission)) b₁ = .ok b' ∧
      Standing far wide t b' (G ++ F ++ [⟨p, [], k⟩]) := by
  obtain ⟨b₁, hCreate, g⟩ := (A.refuel k).createNodes (by rintro _ ⟨⟩)
    (fun d (hd : d ∈ c.children) =>
      Nat.le_of_succ_le_succ (Nat.le_trans (Call.depth_child hd) hDepth))
    (fun d hd => hc.child hd)
    (fun hFar d hd => Call.all_self (hc.serializable hFar d hd))
  rw [List.nil_append] at g
  obtain ⟨first, others, hSplit⟩ := List.exists_cons_of_ne_nil hChildren
  have hFirst : first ∈ c.children := by
    rw [hSplit]
    exact List.mem_cons_self
  have hSubmits := Call.all_self hc.submitsFirst
  rw [hSplit] at hSubmits
  rw [Bool.and_eq_true, List.all_eq_true] at hSubmits
  have hRange : List.range' (b.uniqueIdCounter + 1) c.children.length =
      (b.uniqueIdCounter + 1) :: List.range' (b.uniqueIdCounter + 1 + 1) others.length := by
    rw [hSplit]
    exact List.range'_succ
  have hNodup : (List.range' (b.uniqueIdCounter + 1) c.children.length).Nodup := List.nodup_range'
  have hNew : ∀ e ∈ G ++ F, ∀ m ∈ List.range' (b.uniqueIdCounter + 1) c.children.length,
      m ∉ e.remaining := by
    intro e he m hm hMem
    have hCreated := A.created e (by
      rw [← List.append_assoc]
      exact List.mem_append_left _ he) m (List.mem_cons_of_mem _ hMem)
    exact absurd (List.mem_range'_1.mp hm).1 (Nat.not_le_of_gt (Nat.lt_succ_of_le hCreated.2))
  have hRooted' : wide = true → b₁.Rooted (F ++ [⟨p, List.range' (b.uniqueIdCounter + 1)
      c.children.length, k⟩]) := by
    intro hWide e he
    cases F with
    | nil =>
      cases Option.some.inj (Option.mem_def.mp he)
      have hBranches := Call.all_self (hc.branches hWide)
      have hPending : (⟨p, List.range' (b.uniqueIdCounter + 1) c.children.length, k⟩ :
          Frame).pending b₁.links = List.range' (b.uniqueIdCounter + 1) c.children.length :=
        List.filter_eq_self.mpr fun n hn => g.linked n hn
      change (b₁.node p).children.length ≠ 1
      rw [g.active.innermost.1, hPending, List.length_range']
      exact bne_iff_ne.mp hBranches
    | cons e' F =>
      cases Option.some.inj (Option.mem_def.mp he)
      have hMem : e ∈ G ++ (e :: F ++ [⟨p, [], j⟩]) :=
        List.mem_append_right _ List.mem_cons_self
      have hNode := g.keeps e.node (A.created e hMem _ List.mem_cons_self).2
        (ThreadTree.node_ne_of_mem (g := ⟨p, [], j⟩) A.tree.nodup
          (List.mem_append_right _ List.mem_cons_self))
      rw [show b₁.links e.node = b.links e.node from congrArg NodeCore.links hNode]
      exact hRooted hWide e rfl
  have A₁ := g.active
  have hLinked := g.linked
  rw [hRange] at A₁ hLinked hNodup hNew hRooted'
  obtain ⟨hFresh, hNodup⟩ := List.nodup_cons.mp hNodup
  have A₂ := A₁.descend (hLinked _ List.mem_cons_self)
  have hLive : Live far wide t b₁
      (G ++ F ++ [⟨p, List.range' (b.uniqueIdCounter + 1 + 1) others.length, k⟩])
      ⟨b.uniqueIdCounter + 1, [], k⟩ [b.uniqueIdCounter + 1] := by
    exact ⟨G, _, by rw [List.append_assoc], A₂, fun hWide => (hRooted' hWide).reframe _⟩
  obtain ⟨b₂, hHandOver, R⟩ := hLive.handOver (s := first.submission) hBody (by
    intro e he
    obtain he | he := List.mem_append.mp he
    · exact hNew e he _ List.mem_cons_self
    · rw [List.mem_singleton.mp he]
      exact hFresh) (by
    intro hRemote
    cases far with
    | false =>
      have hLocally := Call.all_self (hc.near rfl first hFirst)
      rw [hRemote] at hLocally
      cases hLocally
    | true => exact ⟨rfl, g.worker.trans (hc.worker rfl)⟩)
  obtain ⟨b', hAll, R'⟩ := R.handOverAll hBody hNodup
    (fun e he m hm => hNew e he m (List.mem_cons_of_mem _ hm))
    (l := others.map Call.submission) (by
    intro s hs
    obtain ⟨d, hd, rfl⟩ := List.mem_map.mp hs
    exact beq_iff_eq.mp (hSubmits.2 d hd)) (by
    rw [List.length_map, List.length_range'])
  refine ⟨_, b₁, b', hCreate, ?_, R'.standing⟩
  rw [hRange, hSplit, List.map_cons, List.zip_cons_cons, Balancer.handOverAll]
  rw [hHandOver]
  exact hAll

/-- A call that is given the innermost node of its thread keeps it the innermost. -/
theorem runs_explore : ∀ k, Runs far wide t k (explore k t) := by
  intro k
  induction k with
  | zero =>
    rintro b S n ⟨creation, submission, children⟩ j hDepth
    exact absurd hDepth (Nat.not_succ_le_zero _)
  | succ k ih =>
    intro b S n c j hDepth hc h
    obtain ⟨G, F, rfl, A, hRooted⟩ := h
    obtain ⟨creation, submission, children⟩ := c
    rw [explore]
    cases children with
    | nil => exact ⟨b, j, rfl, G, _, (List.append_assoc ..).symm, A, hRooted⟩
    | cons d ds =>
      have hRooted' : wide = true → b.Rooted F := by
        intro hWide e he
        cases F with
        | nil => cases he
        | cons g F => exact hRooted hWide e he
      obtain ⟨ns, b₁, b', hCreate, hAll, hStanding⟩ :=
        A.branch ih hRooted' hc hDepth (List.cons_ne_nil d ds)
      refine ⟨b', k, ?_, hStanding⟩
      change (b.createNodes t n (d :: ds) >>= fun x => _) = _
      rw [show b.createNodes t n (d :: ds) = _ from hCreate]
      exact hAll

abbrev Idle (wide : Bool) (b : Balancer) : Prop := b.Ledger false wide fun _ => False

theorem Idle.ledger (h : b.Idle wide) (far : Bool) : b.Ledger far wide fun _ => False :=
  ⟨(by rintro _ ⟨⟩), h.settled, h.running, h.recorded, h.pool, h.picks, h.handouts, h.defensive⟩

theorem Standing.idle (h : Standing far wide t b [⟨p, [], k⟩]) : b.Idle wide := by
  obtain ⟨G, F, hStack, A, -⟩ := h
  have hRemaining : ∀ e ∈ F, e.remaining = [] := by
    intro e he
    have hMem : e ∈ G ++ F := List.mem_append_right _ he
    rw [hStack] at hMem
    rw [List.mem_singleton.mp hMem]
  have hWaits : ∀ m, b.Waits F [] m ↔ False := by
    intro m
    apply iff_false_intro
    rintro (hm | hm)
    · cases hm
    · obtain ⟨e, he, hm⟩ := mem_pendings_levels.mp hm
      have hm := (mem_pending.mp hm).1
      rw [hRemaining e he] at hm
      cases hm
  have hLedger := A.ledger.congr hWaits
  exact ⟨(by rintro _ ⟨⟩), hLedger.settled, hLedger.running, hLedger.recorded, hLedger.pool,
    hLedger.picks, hLedger.handouts, hLedger.defensive⟩

/-- The state with a dummy node as the root of `t`. -/
def seeded (b : Balancer) (t : ThreadId) : Balancer :=
  { b with
    uniqueIdCounter := b.uniqueIdCounter + 1
    node := Function.update b.node (b.uniqueIdCounter + 1)
      { NodeCore.dummy with root := some t, threadId := t }
    roots := Function.update b.roots t (some (b.uniqueIdCounter + 1))
    depth := Function.update b.depth (b.uniqueIdCounter + 1) 0 }

theorem createDummy_eq : b.createDummy t = .ok (b.uniqueIdCounter + 1, b.seeded t) := by
  rw [createDummy, create]
  simp only [modify, setRoot, rootSlot, Function.update_self, Function.update_idem,
    Option.isSome_some, if_true]
  rfl

theorem Idle.seed (h : b.Idle wide) (t : ThreadId) (k : ℕ) :
    Active far wide t (b.seeded t) [] [⟨b.uniqueIdCounter + 1, [], k⟩] [] := by
  have hSelf : (b.seeded t).node (b.uniqueIdCounter + 1) =
      { NodeCore.dummy with root := some t, threadId := t } :=
    Function.update_self ..
  have hAllocates : b.Allocates (b.seeded t) := by
    refine ⟨fun m hm => congrArg unlinked ?_, rfl, rfl⟩
    exact Function.update_of_ne (Nat.ne_of_lt (Nat.lt_succ_of_le hm)) ..
  have hLinks : (b.seeded t).links (b.uniqueIdCounter + 1) = ⟨some t, none, [], t⟩ :=
    congrArg NodeCore.links hSelf
  have hWaits : ∀ m, ¬(b.seeded t).Waits [⟨b.uniqueIdCounter + 1, [], k⟩] [] m := by
    rintro m (hm | hm)
    · cases hm
    · cases hm
  refine ⟨⟨?_, ?_, ?_, (by rintro _ ⟨⟩)⟩, ?_, ?_, ?_, ?_, ?_⟩
  · exact ⟨hLinks, (by rintro _ ⟨⟩), trivial⟩
  · exact List.nodup_singleton _
  · intro e he
    cases he
    exact Function.update_self ..
  · refine hAllocates.ledger (h.ledger far) ?_ ?_ ?_
    · intro m _
      exact iff_false_intro (hWaits m)
    · rw [hSelf]
      exact .inl rfl
    · exact fun hWait => absurd hWait (hWaits _)
  · intro e he m hm
    rw [List.mem_singleton.mp he] at hm
    cases hm
  · intro e he m hm
    rw [List.mem_singleton.mp he, List.mem_singleton] at hm
    rw [hm]
    exact ⟨Nat.succ_pos _, Nat.le_refl _⟩
  · intro e he m hm hWait
    exact absurd hWait (hWaits m)
  · exact ⟨(by rintro _ ⟨⟩), trivial⟩

theorem Idle.explore (h : b.Idle wide) (hc : c.Admissible wide b.schedulerWorker)
    (hDepth : c.depth ≤ k) : ∃ b', explore k t c none b = .ok b' ∧ b'.Idle wide := by
  obtain ⟨far, hc⟩ := hc.suits
  obtain ⟨creation, submission, children⟩ := c
  cases k with
  | zero => exact absurd hDepth (Nat.not_succ_le_zero _)
  | succ k =>
    rw [Balancer.explore]
    cases children with
    | nil => exact ⟨b, rfl, h⟩
    | cons d ds =>
      have A : Active far wide t (b.seeded t) [] ([] ++ [⟨b.uniqueIdCounter + 1, [], k⟩]) [] :=
        h.seed t k
      obtain ⟨ns, b₁, b', hCreate, hAll, hStanding⟩ :=
        A.branch (runs_explore k) (fun _ => rooted_nil) hc hDepth (List.cons_ne_nil d ds)
      refine ⟨b', ?_, hStanding.idle⟩
      change (b.createDummy t >>= fun x => _) = _
      rw [createDummy_eq]
      change ((b.seeded t).createNodes t (b.uniqueIdCounter + 1) (d :: ds) >>= fun x => _) = _
      rw [show (b.seeded t).createNodes t (b.uniqueIdCounter + 1) (d :: ds) = _ from hCreate]
      exact hAll

end Balancer

end Gempba
