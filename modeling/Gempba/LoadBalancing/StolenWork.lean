import Gempba.LoadBalancing.StealingSteps

/-!
# Work stealing executes the plain recursion

The calls executed so far and those that the obligations of all processes are
worth make up the plain recursion at any time.
-/

namespace Gempba

set_option autoImplicit false

open Transition

section Machine

open Stealer

variable {ι : Type} [DecidableEq ι] {k : ℕ} {P : Type} {codec : Codec P} {root : Call}
  {s s' : ι → Stealer (k + 1) P}

theorem sound_initial (h : (stealing codec k root).initial s) : ∀ p, (s p).Sound codec := by
  obtain ⟨hRoot, origin, answers, rfl⟩ := h
  intro p
  refine ⟨rfl, ?_, ?_, (by rintro t a ⟨⟩), (by rintro n ⟨⟩), ?_, (by rintro e ⟨⟩)⟩
  · rw [owned_eq]
    simp
  · rw [owned_eq]
    simp
  · intro c hc
    change c ∈ (if p = origin then [root] else []) at hc
    obtain hp | hp := eq_or_ne p origin
    · rw [if_pos hp] at hc
      rw [List.mem_singleton.mp hc]
      exact hRoot
    · rw [if_neg hp] at hc
      cases hc

theorem sound_update (h : ∀ p, (s p).Sound codec) {p : ι} {a : Stealer (k + 1) P}
    (ha : a.Sound codec) (q : ι) : (Function.update s p a q).Sound codec := by
  obtain rfl | hq := eq_or_ne q p
  · rw [Function.update_self]
    exact ha
  · rw [Function.update_of_ne hq]
    exact h q

variable [Fintype ι]

/-- The calls executed and the obligations, over all processes. -/
def stolen (codec : Codec P) (s : ι → Stealer k P) : Multiset Call × Multiset Obligation :=
  (∑ p, ((s p).executed : Multiset Call), ∑ p, (s p).obligations codec)

theorem stolen_update {p : ι} {a : Stealer (k + 1) P} (w : Multiset Call)
    (gone come : Multiset Obligation) (hDone : (a.executed : Multiset Call) = w + (s p).executed)
    (hTasks : a.obligations codec + gone = (s p).obligations codec + come) :
    (stolen codec (Function.update s p a)).1 = w + (stolen codec s).1 ∧
      (stolen codec (Function.update s p a)).2 + gone = (stolen codec s).2 + come := by
  constructor
  · have hStep : (a.executed : Multiset Call) + 0 = (s p).executed + w := by
      rw [add_zero, hDone, add_comm]
    have hSum := sum_update (fun a : Stealer (k + 1) P => (a.executed : Multiset Call)) hStep
    rw [stolen, stolen, add_comm w, ← hSum, add_zero]
  · exact sum_update (fun a : Stealer (k + 1) P => a.obligations codec) hTasks

/-- Every move keeps all processes sound and meets one obligation. -/
theorem stealing_step (h : ∀ p, (s p).Sound codec) (event : Event ι (k + 1)) :
    (stealing codec k root).step event s = .blocked ∨
      ∃ s', (stealing codec k root).step event s = .moved s' ∧ (∀ p, (s' p).Sound codec) ∧
        Obligation.Splits.Step (stolen codec s) (stolen codec s') := by
  cases event with
  | act p action =>
    obtain hBlocked | ⟨a, hMoved, hSound, x, w, ys, hSplits, hDone, hTasks⟩ := (h p).step action
    · left
      change ((s p).step codec action).map _ = _
      rw [hBlocked]
      rfl
    · right
      obtain ⟨hExecuted, hObligations⟩ := stolen_update w _ ys hDone hTasks
      refine ⟨Function.update s p a, ?_, sound_update h hSound, x, w, ys, hSplits, hExecuted,
        hObligations⟩
      change ((s p).step codec action).map _ = _
      rw [hMoved]
      rfl
  | receive p q i =>
    change Stealer.receive codec s p q i = _ ∨ ∃ s', Stealer.receive codec s p q i = _ ∧ _
    rw [Stealer.receive]
    cases hTask : (s q).pushed[i]? with
    | none => exact .inl rfl
    | some task =>
      right
      obtain ⟨hForget, hGone⟩ := (h q).forget hTask
      have hSound := sound_update (p := q) h hForget
      obtain ⟨hAccept, hCome⟩ := (hSound p).accept task
        ((h q).pushed task (List.mem_of_getElem? hTask))
      obtain ⟨hExecuted, hLeft⟩ := stolen_update (p := q)
        (a := { s q with pushed := (s q).pushed.eraseIdx i }) 0 _ 0 (zero_add _).symm
        (hGone.trans (add_zero _).symm)
      obtain ⟨hExecuted', hLeft'⟩ := stolen_update (p := p) (a := Stealer.accept codec
        (Function.update s q { s q with pushed := (s q).pushed.eraseIdx i } p) task) 0 0 _
        (zero_add _).symm ((add_zero _).trans hCome)
      refine ⟨_, rfl, sound_update hSound hAccept, _, _, _,
        .receive (codec.deserialize task.1 task.2), hExecuted'.trans ?_, ?_⟩
      · rw [zero_add, hExecuted]
      · rw [add_zero] at hLeft hLeft'
        rw [← hLeft, add_right_comm, ← hLeft']

theorem sound_of_reachable (h : (stealing codec k root).Reachable s) (p : ι) :
    (s p).Sound codec := by
  refine h.invariant (I := fun s => ∀ p, (s p).Sound codec) (fun _ => sound_initial) ?_ p
  intro s event s' _ hs _ hStep
  obtain hBlocked | ⟨s'', hMoved, hSound, -⟩ := stealing_step hs event
  · rw [hBlocked] at hStep
    cases hStep
  · rw [hMoved] at hStep
    cases hStep
    exact hSound

theorem stealing_drives :
    Obligation.Splits.Drives (stealing codec k root) (stolen (ι := ι) codec) := by
  intro s event s' hs hStep
  obtain hBlocked | ⟨s'', hMoved, -, hSplit⟩ := stealing_step (sound_of_reachable hs) event
  · rw [hBlocked] at hStep
    cases hStep
  · rw [hMoved] at hStep
    cases hStep
    exact hSplit

theorem stolen_initial (h : (stealing codec k root).initial s) :
    stolen codec s = (0, {.pooled root}) := by
  obtain ⟨-, origin, answers, rfl⟩ := h
  refine Prod.ext (Finset.sum_eq_zero fun p _ => rfl) ?_
  have hOnly : ∀ p ∈ Finset.univ, p ≠ origin → obligations (k := k + 1) codec
      { balancer := { answers := answers p, schedulerWorker := true },
        received := if p = origin then [root] else [] } = 0 := by
    intro p _ hp
    simp [obligations, total, hp]
  refine (Finset.sum_eq_single origin hOnly fun h => absurd (Finset.mem_univ origin) h).trans ?_
  simp [obligations, total]

theorem obligations_quiet {s : Stealer (k + 1) P} (h : s.Quiet) : s.obligations codec = 0 := by
  obtain ⟨hStack, hPool, hReceived, hPushed⟩ := h
  simp [obligations, total, hStack, hPool, hReceived, hPushed]

theorem busy_not_blocked {s : Stealer (k + 1) P} {t : Fin (k + 1)} {a : ActiveCall}
    (hHead : (s.stack t).head? = some a) : ∃ action, s.step codec action ≠ .blocked := by
  cases hUncreated : a.uncreated with
  | cons c cs =>
    refine ⟨.create t 0, ?_⟩
    simp only [Stealer.step, Stealer.create, hHead, hUncreated, List.getElem?_cons_zero]
    exact Outcome.ofExcept_ne_blocked _
  | nil =>
    cases hCreated : a.created with
    | cons e es =>
      refine ⟨.submit t 0, ?_⟩
      simp only [Stealer.step, Stealer.submit, hHead, hCreated, List.getElem?_cons_zero]
      exact Outcome.ofExcept_ne_blocked _
    | nil =>
      refine ⟨.finish t, ?_⟩
      simp only [Stealer.step, Stealer.finish, hHead, hUncreated, hCreated]
      cases a.node with
      | none => simp
      | some n => simpa using Outcome.ofExcept_ne_blocked _

/-- Where no thread is busy, a waiting task can be taken. -/
theorem idle_not_blocked {s : Stealer (k + 1) P} (hIdle : ∀ t, s.stack t = [])
    (h : s.balancer.threadPool ≠ [] ∨ s.received ≠ []) :
    ∃ action, s.step codec action ≠ .blocked := by
  obtain h | h := h
  · obtain ⟨n, ns, hPool⟩ := List.exists_cons_of_ne_nil h
    refine ⟨.task 0 0, ?_⟩
    simp only [Stealer.step, Stealer.takeTask, hPool, hIdle, List.getElem?_cons_zero]
    simpa using Outcome.ofExcept_ne_blocked _
  · obtain ⟨c, cs, hReceived⟩ := List.exists_cons_of_ne_nil h
    refine ⟨.received 0 0, ?_⟩
    simp [Stealer.step, Stealer.takeReceived, hReceived, hIdle]

/-- Where a process is not quiet, some thread moves or a task is received. -/
theorem moves_of_not_quiet (h : ∀ p, (s p).Sound codec) {p : ι} (hp : ¬ (s p).Quiet) :
    ∃ event s', (stealing codec k root).step event s = .moved s' := by
  have hEvent : ∃ event, (stealing codec k root).step event s ≠ .blocked := by
    have hAct : (∃ action, (s p).step codec action ≠ .blocked) →
        ∃ event, (stealing codec k root).step event s ≠ .blocked := by
      rintro ⟨action, hAction⟩
      refine ⟨.act p action, fun hBlocked => hAction ?_⟩
      change ((s p).step codec action).map _ = _ at hBlocked
      cases hStep : (s p).step codec action with
      | blocked => rfl
      | moved a =>
        rw [hStep] at hBlocked
        cases hBlocked
      | raised e =>
        rw [hStep] at hBlocked
        cases hBlocked
    obtain hIdle | hBusy := Classical.em (∀ t, (s p).stack t = [])
    · obtain hPushed | hPushed := Classical.em ((s p).pushed = [])
      · refine hAct (idle_not_blocked hIdle ?_)
        rw [← not_and_or]
        rintro ⟨hPool, hReceived⟩
        exact hp ⟨hIdle, hPool, hReceived, hPushed⟩
      · obtain ⟨e, es, hPushed⟩ := List.exists_cons_of_ne_nil hPushed
        refine ⟨.receive p p 0, ?_⟩
        change Stealer.receive codec s p p 0 ≠ _
        rw [Stealer.receive, hPushed]
        rintro ⟨⟩
    · obtain ⟨t, ht⟩ := not_forall.mp hBusy
      obtain ⟨a, rest, hStack⟩ := List.exists_cons_of_ne_nil ht
      exact hAct (busy_not_blocked (congrArg List.head? hStack))
  obtain ⟨event, hNotBlocked⟩ := hEvent
  obtain hBlocked | ⟨s', hMoved, -⟩ := stealing_step h event
  · exact absurd hBlocked hNotBlocked
  · exact ⟨event, s', hMoved⟩

/-- Whatever is answered and whoever moves: nothing is thrown, no call is executed that the plain
recursion does not execute, and none more often; every run ends, and as long as some process is
not quiet it goes on; and once all are quiet the calls executed are those of the plain
recursion. -/
theorem workStealing_sequential (h : (stealing codec k root).Reachable s) :
    (∀ event throw, (stealing codec k root).step event s ≠ .raised throw) ∧
    ∑ p, ((s p).executed : Multiset Call) ≤ root.sequential ∧
    (∀ events s', (stealing codec k root).run events s = some s' →
      events.length ≤ root.effort + 1) ∧
    ((∃ p, ¬ (s p).Quiet) → ∃ event s', (stealing codec k root).step event s = .moved s') ∧
    ((∀ p, (s p).Quiet) → ∑ p, ((s p).executed : Multiset Call) = root.sequential) := by
  have hSound := sound_of_reachable h
  have hTotal : (stolen codec s).1 + ((stolen codec s).2.map Obligation.value).sum =
      root.sequential := by
    refine stealing_drives.conserves Obligation.fair (fun s hs => ?_) h
    rw [stolen_initial hs]
    simp [Obligation.value]
  refine ⟨?_, ?_, ?_, ?_, ?_⟩
  · intro event throw hRaised
    obtain hBlocked | ⟨s', hMoved, -⟩ := stealing_step hSound event
    · rw [hBlocked] at hRaised
      cases hRaised
    · rw [hMoved] at hRaised
      cases hRaised
  · exact Multiset.le_iff_exists_add.mpr ⟨_, hTotal.symm⟩
  · intro events s' hRun
    have hBound : ((stolen codec s).2.map Obligation.cost).sum ≤ root.effort + 1 :=
      stealing_drives.cost_le Obligation.shrinking
      (fun s hs => by
        rw [stolen_initial hs]
        simp [Obligation.cost]) h
    have hLength := stealing_drives.run_le Obligation.shrinking h hRun
    omega
  · rintro ⟨p, hp⟩
    exact moves_of_not_quiet hSound hp
  · intro hQuiet
    have hNone : (stolen codec s).2 = 0 :=
      Finset.sum_eq_zero fun p _ => obligations_quiet (hQuiet p)
    rw [hNone, Multiset.map_zero, Multiset.sum_zero, add_zero] at hTotal
    exact hTotal

/-- Arguments that are their own packets. -/
def plainCodec : Codec Call where
  serialize := id
  deserialize := fun _ => id
  round_trip _ _ _ := rfl

/-- One child goes to another process, one to the pool, one does not branch and one is called. -/
def everyRoute : Call :=
  .mk (.createExplicitNode false) .forward
    [.mk (.createExplicitNode true) (.tryRemoteSubmit 0) [],
      .mk (.createLazyNode false true) .tryLocalSubmit [],
      .mk (.createLazyNode false false) .tryLocalSubmit [],
      .mk (.createExplicitNode false) .forward []]

def everyRouteStart : Bool → Stealer 1 Call := fun p =>
  { balancer := { answers := fun _ => true, schedulerWorker := true }
    received := if p = true then [everyRoute] else [] }

def onlyThread : Fin 1 := Fin.last 0

def everyRouteRun : List (Event Bool 1) :=
  let t := onlyThread
  [.act true (.received t 0), .act true (.createDummy t), .act true (.create t 0),
    .act true (.submit t 0), .act true (.create t 0), .act true (.create t 0),
    .act true (.create t 0), .receive false true 0, .act true (.submit t 1),
    .act false (.received t 0), .act true (.submit t 0), .act true (.submit t 0),
    .act true (.finish t), .act true (.finish t), .act false (.finish t),
    .act true (.task t 0), .act true (.finish t)]

theorem everyRoute_runs :
    ((stealing plainCodec 0 everyRoute).run everyRouteRun everyRouteStart).isSome = true := by
  decide

theorem workStealing_sequential_everyRoute :
    let s := ((stealing plainCodec 0 everyRoute).run everyRouteRun everyRouteStart).get
      everyRoute_runs
    ∑ p, ((s p).executed : Multiset Call) = everyRoute.sequential :=
  (workStealing_sequential (Machine.Reachable.run
    (.start ⟨by decide, true, fun _ _ => true, rfl⟩) (Option.some_get _).symm)).2.2.2.2
    (by decide)

end Machine

end Gempba
