import Gempba.Schedulers.ScoredRun

/-!
# The best solution at the end of a run

At the end of a run the center has heard every worker once. With an update
after the funnel's loop the global score is the best offered one and some
worker reports a packet for it. Without it the same holds exactly when no
worker keeps a score that improves on the global one; the packet fetched is
then right unless a worker without a result hides it.
-/

namespace Gempba

set_option autoImplicit false

variable {W : World}

namespace CenterPhase

/-- The center has heard the report of `w`. -/
def heard : CenterPhase W → WorkerRank W → Prop
  | .collecting next, w => w.val.val < next.val.val
  | .finished, _ => True
  | .receiving, _ => False
  | .barrier, _ => False

theorem heard_nextPhase (w x : WorkerRank W) : (nextPhase w).heard x ↔ x.val.val ≤ w.val.val := by
  unfold nextPhase
  split
  · exact Nat.lt_succ_iff
  · rename_i hlast
    have hx := x.val.isLt
    simp only [heard, true_iff]
    omega

theorem not_heard_first (w : WorkerRank W) : ¬ (CenterPhase.collecting W.firstWorker).heard w := by
  intro hw
  have hlt : w.val.val < 1 := hw
  apply w.property
  apply Fin.ext
  change w.val.val = 0
  omega

end CenterPhase

/-- The scores and the outline of the same run. -/
structure Linked (o : Outline W) (s : Scores W) : Prop where
  funnel : ∀ w, (s.worker w).pc = .outside ↔ o.phase w ≠ .executing
  exited : o.centerPhase ≠ .receiving → (∀ w, o.phase w ≠ .executing) ∧ s.handling = none
  early : o.centerPhase = .receiving → ∀ w, o.phase w ≠ .barrier ∧ o.phase w ≠ .reported
  reports : ∀ w r, s.reported w = some r →
    o.phase w = .reported ∧ r = (s.worker w).manager.finalSolution
  inFlight : ∀ w r, (w, r) ∈ o.reports → s.reported w = some r
  heard : ∀ w, o.centerPhase.heard w →
    ∃ r, s.reported w = some r ∧ o.bestResults w = r.getD Result.EMPTY
  unheard : ∀ w : WorkerRank W, ¬ o.centerPhase.heard w → o.bestResults w = Result.EMPTY

namespace Linked

variable {o o' : Outline W} {s t : Scores W} {goal : Goal} {finalUpdate : Bool} {init : Score}

theorem withScores (h : Linked o s)
    (hpc : ∀ w, (t.worker w).pc = .outside ↔ (s.worker w).pc = .outside)
    (hhandling : o.centerPhase ≠ .receiving → t.handling = none)
    (hreported : t.reported = s.reported)
    (hmanager : ∀ w, o.phase w = .reported → (t.worker w).manager = (s.worker w).manager) :
    Linked o t where
  funnel w := (hpc w).trans (h.funnel w)
  exited hexit := ⟨(h.exited hexit).1, hhandling hexit⟩
  early := h.early
  reports w r hr := by
    rw [hreported] at hr
    obtain ⟨hphase, heq⟩ := h.reports w r hr
    exact ⟨hphase, by rw [hmanager w hphase, heq]⟩
  inFlight w r hmem := by
    rw [hreported]
    exact h.inFlight w r hmem
  heard w hw := by
    rw [hreported]
    exact h.heard w hw
  unheard := h.unheard

theorem workerStep (h : Linked o s) (hsound : s.Sound goal init) {w : WorkerRank W}
    {e : ScoreWorker.Event} (ht : s.workerStep goal finalUpdate w e = .moved t) : Linked o t := by
  obtain ⟨v, hv, hworker, _, hhandling, hreported, _⟩ := Scores.workerStep_moved ht
  refine h.withScores (fun x => ?_) (fun hexit => hhandling.trans (h.exited hexit).2) hreported
    fun x hx => ?_
  · rw [hworker]
    obtain rfl | hne := eq_or_ne x w
    · simpa [Scores.setWorker] using ScoreWorker.step_pc hv
    · simp [Scores.setWorker, Function.update_of_ne hne]
  · rw [hworker]
    obtain rfl | hne := eq_or_ne x w
    · have hpc : (s.worker x).pc = .outside := (h.funnel x).mpr (by simp [hx])
      have hpool := (hsound.worker x).idle (by rw [hpc]; rfl)
      simpa [Scores.setWorker] using ScoreWorker.step_outside hpc hpool hv
    · simp [Scores.setWorker, Function.update_of_ne hne]

theorem setWorker (h : Linked o s) (hphase : o.centerPhase = .receiving) {w : WorkerRank W}
    {v : ScoreWorker} (hpc : v.pc = .outside ↔ (s.worker w).pc = .outside)
    (handling : Option Score) : Linked o { s.setWorker w v with handling } := by
  refine h.withScores (fun x => ?_) (fun hexit => absurd hphase hexit) rfl fun x hx => ?_
  · obtain rfl | hne := eq_or_ne x w
    · simpa [Scores.setWorker] using hpc
    · simp [Scores.setWorker, Function.update_of_ne hne]
  · exact absurd hx (h.early hphase x).2

theorem consumeScoreFlag (h : Linked o s) (hphase : o.centerPhase = .receiving)
    {w : WorkerRank W} (ht : s.consumeScoreFlag w = .moved t) : Linked o t := by
  obtain ⟨final, localScore, hpc, _, rfl⟩ := Scores.consumeScoreFlag_moved ht
  apply h.setWorker hphase
  cases final <;> simp [hpc, FunnelPc.updated]

theorem maybeBroadcastGlobalScore (h : Linked o s)
    (ht : s.maybeBroadcastGlobalScore goal = .moved t) : Linked o t ∧ t.handling = none := by
  simp only [Scores.maybeBroadcastGlobalScore] at ht
  split at ht
  · split at ht
    · cases ht
      exact ⟨h.withScores (fun _ => Iff.rfl) (fun _ => rfl) rfl fun _ _ => rfl, rfl⟩
    · cases ht
      exact ⟨h.withScores (fun _ => Iff.rfl) (fun _ => rfl) rfl fun _ _ => rfl, rfl⟩
  · cases ht

theorem setPhase (h : Linked o s) {w : WorkerRank W} {phase : WorkerPhase} {v : ScoreWorker}
    (hold : o.phase w ≠ .reported) (hnew : phase ≠ .reported)
    (hmanager : v.manager = (s.worker w).manager) (hpc : v.pc = .outside ↔ phase ≠ .executing)
    (hexited : o.centerPhase ≠ .receiving → phase ≠ .executing)
    (hearly : o.centerPhase = .receiving → phase ≠ .barrier) :
    Linked (o.setPhase w phase) (s.setWorker w v) where
  funnel x := by
    obtain rfl | hne := eq_or_ne x w
    · simpa [Outline.setPhase, Scores.setWorker] using hpc
    · simpa [Outline.setPhase, Scores.setWorker, Function.update_of_ne hne] using h.funnel x
  exited hexit := by
    refine ⟨fun x => ?_, (h.exited hexit).2⟩
    obtain rfl | hne := eq_or_ne x w
    · simpa [Outline.setPhase] using hexited hexit
    · simpa [Outline.setPhase, Function.update_of_ne hne] using (h.exited hexit).1 x
  early hphase x := by
    obtain rfl | hne := eq_or_ne x w
    · simpa [Outline.setPhase] using ⟨hearly hphase, hnew⟩
    · simpa [Outline.setPhase, Function.update_of_ne hne] using h.early hphase x
  reports x r hr := by
    obtain ⟨hphase, heq⟩ := h.reports x r hr
    have hne : x ≠ w := by
      rintro rfl
      exact hold hphase
    simpa [Outline.setPhase, Scores.setWorker, Function.update_of_ne hne] using ⟨hphase, heq⟩
  inFlight := h.inFlight
  heard := h.heard
  unheard := h.unheard

theorem sendFinalSolution (h : Linked o s) {w : WorkerRank W} {r : Report}
    (hphase : o.phase w = .barrier) (hr : r = (s.worker w).manager.finalSolution) :
    Linked { o.setPhase w .reported with reports := (w, r) ::ₘ o.reports }
      { s with reported := Function.update s.reported w (some r) } where
  funnel x := by
    obtain rfl | hne := eq_or_ne x w
    · simpa [Outline.setPhase] using (h.funnel x).mpr (by simp [hphase])
    · simpa [Outline.setPhase, Function.update_of_ne hne] using h.funnel x
  exited hexit := by
    refine ⟨fun x => ?_, (h.exited hexit).2⟩
    obtain rfl | hne := eq_or_ne x w
    · simp [Outline.setPhase]
    · simpa [Outline.setPhase, Function.update_of_ne hne] using (h.exited hexit).1 x
  early hreceiving _ := absurd hphase (h.early hreceiving w).1
  reports x q hq := by
    have hq : Function.update s.reported w (some r) x = some q := hq
    obtain rfl | hne := eq_or_ne x w
    · rw [Function.update_self] at hq
      cases hq
      exact ⟨by simp [Outline.setPhase], hr⟩
    · rw [Function.update_of_ne hne] at hq
      simpa [Outline.setPhase, Function.update_of_ne hne] using h.reports x q hq
  inFlight x q hmem := by
    obtain heq | hmem := Multiset.mem_cons.mp hmem
    · cases heq
      simp
    · have hold := h.inFlight x q hmem
      have hne : x ≠ w := by
        rintro rfl
        have hreported := (h.reports x q hold).1
        rw [hphase] at hreported
        cases hreported
      simpa [Function.update_of_ne hne] using hold
  heard x hx := by
    obtain ⟨q, hq, hbest⟩ := h.heard x hx
    have hne : x ≠ w := by
      rintro rfl
      have hreported := (h.reports x q hq).1
      rw [hphase] at hreported
      cases hreported
    exact ⟨q, by simpa [Function.update_of_ne hne] using hq, hbest⟩
  unheard := h.unheard

theorem hear (h : Linked o s) {w : WorkerRank W} {r : Report}
    (hphase : o.centerPhase = .collecting w) (hmem : (w, r) ∈ o.reports) :
    Linked (o.hear w r) s where
  funnel := h.funnel
  exited _ := h.exited (by simp [hphase])
  early hreceiving := absurd hreceiving (nextPhase_ne_receiving w)
  reports := h.reports
  inFlight x q hq := h.inFlight x q (Multiset.mem_of_mem_erase hq)
  heard x hx := by
    have hle := (CenterPhase.heard_nextPhase w x).mp hx
    obtain rfl | hne := eq_or_ne x w
    · refine ⟨r, h.inFlight x r hmem, ?_⟩
      cases r with
      | none => exact h.unheard x (by simp [hphase, CenterPhase.heard])
      | some result => simp [Outline.hear]
    · have hval : (x : Rank W) ≠ w := fun he => hne (Subtype.ext he)
      have hlt : x.val.val < w.val.val :=
        lt_of_le_of_ne hle fun he => hval (Fin.ext he)
      obtain ⟨q, hq, hbest⟩ := h.heard x (by simpa [hphase, CenterPhase.heard] using hlt)
      refine ⟨q, hq, ?_⟩
      cases r with
      | none => exact hbest
      | some result => simpa [Outline.hear, Function.update_of_ne hval] using hbest
  unheard x hx := by
    have hlt : w.val.val < x.val.val := by
      by_contra hle
      exact hx ((CenterPhase.heard_nextPhase w x).mpr (by omega))
    have hval : (x : Rank W) ≠ w := by
      intro he
      rw [he] at hlt
      exact lt_irrefl _ hlt
    have hold := h.unheard x (by rw [hphase, CenterPhase.heard]; omega)
    cases r with
    | none => exact hold
    | some result => simpa [Outline.hear, Function.update_of_ne hval] using hold

theorem centerMove (h : Linked o s) (hmove : CenterMove o o') (hhandling : s.handling = none) :
    Linked o' s := by
  cases hmove with
  | stay => exact h
  | exit hphase hidle =>
    have hunheard : ∀ w, ¬ o.centerPhase.heard w := by
      intro w
      rw [hphase]
      exact id
    exact { h with
      exited := fun _ => ⟨hidle, hhandling⟩
      early := fun hreceiving => by cases hreceiving
      heard := fun w hw => hw.elim
      unheard := fun w _ => h.unheard w (hunheard w) }
  | collect hphase =>
    have hunheard : ∀ w, ¬ o.centerPhase.heard w := by
      intro w
      rw [hphase]
      exact id
    exact { h with
      exited := fun _ => h.exited (by simp [hphase])
      early := fun hreceiving => by cases hreceiving
      heard := fun w hw => absurd hw (CenterPhase.not_heard_first w)
      unheard := fun w _ => h.unheard w (hunheard w) }
  | hear w r hphase hmem => exact h.hear hphase hmem

theorem apply (h : Linked o s) {e : Effect W} (hfollows : e.Follows o o')
    (ht : e.apply goal s = .moved t) : Linked o' t := by
  cases e with
  | nothing =>
    cases ht
    rw [hfollows]
    exact h
  | push w =>
    simp only [Effect.apply] at ht
    split at ht
    · cases ht
      rw [hfollows]
      exact h
    · cases ht
  | enter w =>
    obtain ⟨hphase, hreceiving, rfl⟩ := hfollows
    obtain ⟨_, rfl⟩ := Scores.enterFunnel_moved ht
    exact h.setPhase (by simp [hphase]) (by simp) rfl (by simp)
      (fun hexit => absurd hreceiving hexit) (by simp)
  | leave w =>
    obtain ⟨hphase, rfl⟩ := hfollows
    obtain ⟨_, rfl⟩ := Scores.leaveFunnel_moved ht
    exact h.setPhase (by simp [hphase]) (by simp) rfl (by simp) (by simp) (by simp)
  | terminate w =>
    obtain ⟨hphase, hexit, rfl⟩ := hfollows
    obtain ⟨v, hv, rfl⟩ := Transition.Outcome.map_eq_moved.mp ht
    obtain ⟨_, _, _, _, rfl⟩ := ScoreWorker.drain_moved hv
    exact h.setPhase (by simp [hphase]) (by simp) rfl
      (by simpa using (h.funnel w).mpr (by simp [hphase])) (by simp)
      (fun hreceiving => absurd hreceiving hexit)
  | report w r =>
    obtain ⟨hphase, rfl⟩ := hfollows
    obtain ⟨hr, rfl⟩ := Scores.sendFinalSolution_moved ht
    exact h.sendFinalSolution hphase hr
  | center =>
    simp only [Effect.apply] at ht
    split at ht
    · rename_i hhandling
      cases ht
      exact h.centerMove hfollows hhandling
    · cases ht
  | proposal =>
    obtain ⟨hlinked, hhandling⟩ := h.maybeBroadcastGlobalScore ht
    exact hlinked.centerMove hfollows hhandling

end Linked

namespace Scheduler

variable {S : Scheduler W} {model : DataModel} {goal : Goal} {kind : ScoreType} {init : Score}

structure Invariant (goal : Goal) (init : Score) (s : S.Scored) : Prop where
  reachable : S.machine.Reachable s.process
  sound : s.scores.Sound goal init
  linked : Linked s.outline s.scores

/-- A worker that ends its loop has nothing better than the best score at the center. -/
def Proposed (goal : Goal) (s : S.Scored) : S.ScoredEvent → Prop
  | .worker w .finishLoop =>
    shouldUpdate goal (s.scores.best goal) (s.scores.worker w).manager.score = false
  | _ => True

instance (s : S.Scored) (e : S.ScoredEvent) : Decidable (Proposed goal s e) := by
  unfold Proposed
  split <;> infer_instance

theorem start_eq_some {scores : Scores W} (hinit : getDefaultScore model goal kind = some init)
    (h : Scores.start W model goal kind = some scores) :
    scores.offers = [] ∧ scores.handling = none ∧ scores.globalScore = init ∧
      (∀ w, scores.reported w = none) ∧
      ∀ w, scores.worker w = ⟨⟨goal, init, none⟩, init, 0, .outside, [], 0⟩ := by
  simp only [Scores.start, NodeManager.setGoal, hinit, Option.map_some] at h
  cases h
  exact ⟨rfl, rfl, rfl, fun _ => rfl, fun _ => rfl⟩

theorem invariant_initial (hinit : getDefaultScore model goal kind = some init) {s : S.Scored}
    (h : (S.scored model goal kind).initial s) :
    Invariant goal init s ∧ s.scores.Settled goal := by
  obtain ⟨hprocess, hscores⟩ := h
  obtain ⟨hoffers, hhandling, hglobal, hreported, hworker⟩ := start_eq_some hinit hscores
  have hbest : s.scores.best goal = init := by simp [Scores.best, hhandling, hglobal]
  have houtline : s.outline = .start W := S.outline_initial _ hprocess
  refine ⟨⟨.start hprocess, ⟨fun w => ?_, ?_, Or.inl hbest, ?_⟩, ?_⟩, fun w => ?_⟩
  · rw [hbest, hworker, hoffers]
    exact {
      goal_eq := rfl
      number := value_getDefaultScore hinit
      view := .refl _
      updates := fun u hu => by cases hu
      stale := fun _ => .refl _
      offers := fun r hr => by cases hr
      stored := fun r hr => by cases hr
      idle := fun _ => rfl
      proposing := fun _ _ hpc => by cases hpc }
  · rw [hbest]
    exact .refl _
  · rw [hoffers]
    intro x hx
    cases hx
  · rw [houtline]
    exact {
      funnel := fun w => by simp [hworker, Outline.start]
      exited := fun hexit => absurd rfl hexit
      early := fun _ w => by simp [Outline.start]
      reports := fun w r hr => by
        rw [hreported] at hr
        cases hr
      inFlight := fun w r hr => absurd hr (Multiset.notMem_zero _)
      heard := fun w hw => hw.elim
      unheard := fun _ _ => rfl }
  · intro _
    rw [hbest, hworker]
    exact shouldUpdate_self

theorem Invariant.step {s t : S.Scored} (h : Invariant goal init s) {e : S.ScoredEvent}
    (ht : scoredStep goal e s = .moved t) : Invariant goal init t := by
  cases e with
  | process e =>
    obtain ⟨process, hprocess, hrest⟩ := Transition.Outcome.bind_eq_moved.mp ht
    obtain ⟨scores, hscores, rfl⟩ := Transition.Outcome.map_eq_moved.mp hrest
    have hfollows := S.follows _ _ _ h.reachable hprocess
    exact ⟨h.reachable.tail trivial hprocess, h.sound.apply hscores,
      h.linked.apply hfollows hscores⟩
  | worker w e =>
    simp only [scoredStep, workerStep] at ht
    split at ht
    · obtain ⟨scores, hscores, rfl⟩ := Transition.Outcome.map_eq_moved.mp ht
      exact ⟨h.reachable, h.sound.workerStep hscores, h.linked.workerStep h.sound hscores⟩
    · cases ht
  | consumeScoreFlag w =>
    simp only [scoredStep, consumeScoreFlag] at ht
    split at ht
    · rename_i hphase
      obtain ⟨scores, hscores, rfl⟩ := Transition.Outcome.map_eq_moved.mp ht
      exact ⟨h.reachable, h.sound.consumeScoreFlag hscores,
        h.linked.consumeScoreFlag hphase hscores⟩
    · cases ht
  | maybeBroadcastGlobalScore =>
    simp only [scoredStep, maybeBroadcastGlobalScore] at ht
    split at ht
    · obtain ⟨scores, hscores, rfl⟩ := Transition.Outcome.map_eq_moved.mp ht
      exact ⟨h.reachable, (h.sound.maybeBroadcastGlobalScore hscores).1,
        (h.linked.maybeBroadcastGlobalScore hscores).1⟩
    · cases ht

theorem settled_step {s t : S.Scored} (h : Invariant goal init s)
    (hsettled : s.scores.Settled goal) {e : S.ScoredEvent}
    (hproposed : S.finalUpdate = true ∨ Proposed goal s e) (ht : scoredStep goal e s = .moved t) :
    t.scores.Settled goal := by
  cases e with
  | process e =>
    obtain ⟨process, _, hrest⟩ := Transition.Outcome.bind_eq_moved.mp ht
    obtain ⟨scores, hscores, rfl⟩ := Transition.Outcome.map_eq_moved.mp hrest
    exact hsettled.apply h.sound hscores
  | worker w e =>
    simp only [scoredStep, workerStep] at ht
    split at ht
    · obtain ⟨scores, hscores, rfl⟩ := Transition.Outcome.map_eq_moved.mp ht
      refine hsettled.workerStep h.sound (fun he => hproposed.imp_right fun hp => ?_) hscores
      subst he
      exact hp
    · cases ht
  | consumeScoreFlag w =>
    simp only [scoredStep, consumeScoreFlag] at ht
    split at ht
    · obtain ⟨scores, hscores, rfl⟩ := Transition.Outcome.map_eq_moved.mp ht
      exact hsettled.consumeScoreFlag h.sound hscores
    · cases ht
  | maybeBroadcastGlobalScore =>
    simp only [scoredStep, maybeBroadcastGlobalScore] at ht
    split at ht
    · obtain ⟨scores, hscores, rfl⟩ := Transition.Outcome.map_eq_moved.mp ht
      exact hsettled.maybeBroadcastGlobalScore h.sound hscores
    · cases ht

theorem invariant_of_reachable (hinit : getDefaultScore model goal kind = some init)
    {s : S.Scored} (h : (S.scored model goal kind).Reachable s) : Invariant goal init s :=
  h.invariant (fun _ hs => (invariant_initial hinit hs).1) fun _ _ _ _ hs _ ht => hs.step ht

theorem settled_of_reachable (hinit : getDefaultScore model goal kind = some init)
    {P : S.Scored → S.ScoredEvent → Prop}
    (hP : ∀ s e, P s e → S.finalUpdate = true ∨ Proposed goal s e) {s : S.Scored}
    (h : (S.scored model goal kind).ReachableWhere P s) : s.scores.Settled goal :=
  h.invariant (fun _ hs => (invariant_initial hinit hs).2) fun s e _ hr hs he ht =>
    settled_step (invariant_of_reachable hinit hr.reachable) hs (hP s e he) ht

/-- Some offer improves on the score every process starts with. -/
def Improves (goal : Goal) (init : Score) (s : S.Scored) : Prop :=
  ∃ x ∈ s.scores.offers, shouldUpdate goal init x.2.score = true

/-- No offer improves on the global score, and some worker reports a packet offered with it. -/
structure BestSolution (goal : Goal) (s : S.Scored) : Prop where
  optimal : ∀ x ∈ s.scores.offers, shouldUpdate goal s.scores.globalScore x.2.score = false
  reported : ∃ w packet, (w, ⟨s.scores.globalScore, packet⟩) ∈ s.scores.offers ∧
    s.scores.reported w = some (some ⟨s.scores.globalScore, packet⟩)

/-- What the center has heard is what each worker reported, and a packet goes with the score
it was offered with. -/
structure Heard (s : S.Scored) : Prop where
  reported : ∀ w, ∃ r, s.scores.reported w = some r ∧
    s.outline.bestResults w = r.getD Result.EMPTY
  offered : ∀ w r, s.scores.reported w = some (some r) → (w, r) ∈ s.scores.offers

namespace Invariant

variable {s : S.Scored}

theorem heard (h : Invariant goal init s) (hfinished : s.outline.centerPhase = .finished) :
    Heard s where
  reported w := h.linked.heard w (by simp [hfinished, CenterPhase.heard])
  offered w r hr := (h.sound.worker w).stored r (h.linked.reports w _ hr).2.symm

theorem best_eq (h : Invariant goal init s) (hexit : s.outline.centerPhase ≠ .receiving) :
    s.scores.best goal = s.scores.globalScore := by
  rw [Scores.best, (h.linked.exited hexit).2]

/-- After the exit every worker is outside its funnel. -/
theorem settled (h : Invariant goal init s) (hexit : s.outline.centerPhase ≠ .receiving)
    (hsettled : s.scores.Settled goal) (w : WorkerRank W) :
    shouldUpdate goal s.scores.globalScore (s.scores.worker w).manager.score = false := by
  have hpc := (h.linked.funnel w).mpr ((h.linked.exited hexit).1 w)
  rw [← h.best_eq hexit]
  exact hsettled w (by rw [hpc]; rfl)

theorem optimal_of_settled (h : Invariant goal init s)
    (hsettled : ∀ w, shouldUpdate goal s.scores.globalScore (s.scores.worker w).manager.score =
      false) : ∀ x ∈ s.scores.offers,
        shouldUpdate goal s.scores.globalScore x.2.score = false := by
  rintro ⟨w, r⟩ hx
  rw [Bool.eq_false_iff]
  intro hupdate
  obtain hlocal | hglobal := shouldUpdate_split hupdate (h.sound.worker w).number
  · rw [(h.sound.worker w).offers r hx] at hlocal
    cases hlocal
  · rw [hsettled w] at hglobal
    cases hglobal

theorem bestSolution_of_settled (h : Invariant goal init s)
    (hfinished : s.outline.centerPhase = .finished) (himproves : Improves goal init s)
    (hsettled : ∀ w, shouldUpdate goal s.scores.globalScore (s.scores.worker w).manager.score =
      false) : BestSolution goal s := by
  have hoptimal := h.optimal_of_settled hsettled
  have hbest := h.best_eq (by simp [hfinished])
  refine ⟨hoptimal, ?_⟩
  obtain hsame | ⟨w, hreport, hattains⟩ := h.sound.held
  · obtain ⟨x, hx, hupdate⟩ := himproves
    rw [← hsame, hbest, hoptimal x hx] at hupdate
    cases hupdate
  · rw [hbest] at hattains
    obtain ⟨r, hr⟩ := Option.ne_none_iff_exists'.mp hreport
    have hscore : r.score = s.scores.globalScore := by
      rw [NodeManager.score_of_finalSolution hr]
      obtain heq | hupdate := hattains
      · exact heq
      · rw [hsettled w] at hupdate
        cases hupdate
    obtain ⟨q, hq, _⟩ := (h.heard hfinished).reported w
    have heq : q = some r := (h.linked.reports w q hq).2.trans hr
    obtain ⟨score, packet⟩ := r
    subst hscore
    exact ⟨w, packet, (h.sound.worker w).stored _ hr, by rw [hq, heq]⟩

/-- A worker whose score improves on the global one was offered that score. -/
theorem settled_of_optimal (h : Invariant goal init s)
    (hexit : s.outline.centerPhase ≠ .receiving) (hoptimal : ∀ x ∈ s.scores.offers,
      shouldUpdate goal s.scores.globalScore x.2.score = false) (w : WorkerRank W) :
    shouldUpdate goal s.scores.globalScore (s.scores.worker w).manager.score = false := by
  cases hr : (s.scores.worker w).manager.finalSolution with
  | none =>
    have hstale := (h.sound.worker w).stale hr
    rw [h.best_eq hexit] at hstale
    exact hstale.not_update
  | some r =>
    have hoffered := hoptimal _ ((h.sound.worker w).stored r hr)
    rwa [NodeManager.score_of_finalSolution hr] at hoffered

end Invariant

/-- With an update after the loop the center ends with the best score, whatever the order. -/
theorem bestSolution_of_finalUpdate (hinit : getDefaultScore model goal kind = some init)
    (hfinal : S.finalUpdate = true) {s : S.Scored} (h : (S.scored model goal kind).Reachable s)
    (hfinished : s.outline.centerPhase = .finished) (himproves : Improves goal init s) :
    BestSolution goal s := by
  have hinv := invariant_of_reachable hinit h
  have hsettled := settled_of_reachable hinit (fun _ _ _ => Or.inl hfinal) h
  exact hinv.bestSolution_of_settled hfinished himproves
    (hinv.settled (by simp [hfinished]) hsettled)

theorem semiCentralized_bestSolution (hinit : getDefaultScore model goal kind = some init)
    {s : (semiCentralized W).Scored}
    (h : ((semiCentralized W).scored model goal kind).Reachable s)
    (hfinished : s.outline.centerPhase = .finished) :
    (Improves goal init s → BestSolution goal s) ∧ Heard s :=
  ⟨bestSolution_of_finalUpdate hinit rfl h hfinished,
    (invariant_of_reachable hinit h).heard hfinished⟩

/-- The process before the exchange of scores, and before any step. -/
def beforeRun (process : S.State) (model : DataModel) (goal : Goal) (kind : ScoreType)
    (h : (Scores.start W model goal kind).isSome = true) : S.Scored :=
  ⟨process, (Scores.start W model goal kind).get h⟩

theorem initial_beforeRun {process : S.State} (hprocess : S.machine.initial process)
    (h : (Scores.start W model goal kind).isSome = true) :
    (S.scored model goal kind).initial (beforeRun process model goal kind h) :=
  ⟨hprocess, (Option.some_get h).symm⟩

theorem scores_pair : (Scores.start .pair .LP64 .MAXIMISE .I32).isSome = true := by decide

def semiStart : (semiCentralized .pair).Scored :=
  beforeRun (SemiCentralized.sendSeed ⟨[7], 3⟩) .LP64 .MAXIMISE .I32 scores_pair

/-- The only worker improves its score after the last poll of its loop. -/
def lateOffer : List (semiCentralized .pair).ScoredEvent :=
  let w := World.firstWorker World.pair
  let c := World.center World.pair
  [.process (SemiCentralized.Event.processMessage w c ⟨[7], 3⟩), .worker w (.poll false),
    .worker w .compare, .worker w (.offer (.makeInt 5) [9]), .worker w .finishTask,
    .worker w .finishLoop, .worker w .compare, .consumeScoreFlag w, .maybeBroadcastGlobalScore,
    .process (SemiCentralized.Event.leaveFunnel w), .process (SemiCentralized.Event.centerAck w),
    .process (SemiCentralized.Event.processTermination w),
    .process (SemiCentralized.Event.sendFinalSolution w (some ⟨.makeInt 5, [9]⟩)),
    .process SemiCentralized.Event.centerBarrier,
    .process (SemiCentralized.Event.receiveSolutionFrom w (.report (some ⟨.makeInt 5, [9]⟩)))]

theorem lateOffer_runs : (((semiCentralized .pair).scored .LP64 .MAXIMISE .I32).run lateOffer
    semiStart).isSome = true := by
  decide

theorem initial_semiStart :
    ((semiCentralized .pair).scored .LP64 .MAXIMISE .I32).initial semiStart := by
  apply initial_beforeRun
  exact ⟨_, rfl⟩

theorem semiCentralized_bestSolution_lateOffer :
    BestSolution .MAXIMISE ((((semiCentralized .pair).scored .LP64 .MAXIMISE .I32).run lateOffer
      semiStart).get lateOffer_runs) := by
  have hinit : getDefaultScore .LP64 .MAXIMISE .I32 = some (.makeInt 0x80000000) := rfl
  have hstart : ((semiCentralized .pair).scored .LP64 .MAXIMISE .I32).Reachable semiStart :=
    .start initial_semiStart
  have hrun := hstart.run (Option.some_get lateOffer_runs).symm
  exact (semiCentralized_bestSolution hinit hrun (by decide)).1
    ⟨(World.firstWorker _, ⟨.makeInt 5, [9]⟩), by decide, by decide⟩

end Scheduler

end Gempba
