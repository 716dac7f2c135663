import Gempba.Schedulers.BestSolution

/-!
# The delivery of score updates

Each worker has received the updates sent to it or they are in flight, and the
last of them is the global score of the center. A worker past `TERMINATION`
has none in flight, and the center sends none any more.
-/

namespace Gempba

set_option autoImplicit false

variable {W : World}

namespace ScoreWorker

variable {goal : Goal} {finalUpdate : Bool} {v v' : ScoreWorker}

/-- The global score once all updates in flight have arrived. -/
def upcoming (v : ScoreWorker) : Score := v.updates.getLast?.getD v.globalScore

/-- The center has sent so many updates and now has this score. -/
structure InStep (sent : ℕ) (globalScore : Score) (v : ScoreWorker) : Prop where
  counted : sent = v.updatesReceived + v.updates.length
  latest : v.upcoming = globalScore

theorem step_updates {e : Event} (hv : v.step goal finalUpdate e = some v') :
    v'.updates = v.updates ∧ v'.updatesReceived = v.updatesReceived ∧
        v'.globalScore = v.globalScore ∨
      ∃ u, v.updates = u :: v'.updates ∧ v'.updatesReceived = v.updatesReceived + 1 ∧
        v'.globalScore = u := by
  cases e with
  | receiveScore =>
    obtain ⟨u, us, hupdates, rfl⟩ := receiveScoreFromCenter_eq_some hv
    exact Or.inr ⟨u, hupdates, rfl, rfl⟩
  | submit =>
    simp only [step, submit] at hv
    split at hv
    · cases hv
      exact Or.inl ⟨rfl, rfl, rfl⟩
    · cases hv
  | finishTask =>
    simp only [step, finishTask] at hv
    split at hv
    · cases hv
      exact Or.inl ⟨rfl, rfl, rfl⟩
    · cases hv
  | offer score packet =>
    obtain ⟨_, _, rfl⟩ := offer_eq_some hv
    exact Or.inl ⟨rfl, rfl, rfl⟩
  | poll received =>
    obtain ⟨_, u, rfl | hu, rfl⟩ := poll_eq_some hv
    · exact Or.inl ⟨rfl, rfl, rfl⟩
    · obtain ⟨u, us, hupdates, rfl⟩ := receiveScoreFromCenter_eq_some hu
      exact Or.inr ⟨u, hupdates, rfl, rfl⟩
  | compare =>
    obtain ⟨_, _, ⟨_, rfl⟩ | ⟨_, rfl⟩ | ⟨_, rfl⟩⟩ := compare_eq_some hv
    · exact Or.inl ⟨rfl, rfl, rfl⟩
    · exact Or.inl ⟨rfl, rfl, rfl⟩
    · exact Or.inl ⟨rfl, rfl, rfl⟩
  | invalidate =>
    obtain ⟨_, _, rfl⟩ := invalidate_eq_some hv
    exact Or.inl ⟨rfl, rfl, rfl⟩
  | continueLoop =>
    simp only [step, continueLoop] at hv
    split at hv
    · cases hv
      exact Or.inl ⟨rfl, rfl, rfl⟩
    · cases hv
  | finishLoop =>
    obtain ⟨_, _, rfl⟩ := finishLoop_eq_some hv
    exact Or.inl ⟨rfl, rfl, rfl⟩

theorem upcoming_receive {u : Score} {us : List Score} (hupdates : v.updates = u :: us) :
    v.upcoming = us.getLast?.getD u := by
  rw [upcoming, hupdates]
  cases us with
  | nil => rfl
  | cons x xs =>
    rw [List.getLast?_cons_cons, List.getLast?_cons, Option.getD_some, Option.getD_some]

namespace InStep

variable {sent : ℕ} {globalScore : Score}

theorem step (h : v.InStep sent globalScore) {e : Event}
    (hv : v.step goal finalUpdate e = some v') : v'.InStep sent globalScore := by
  obtain ⟨hupdates, hreceived, hscore⟩ | ⟨u, hupdates, hreceived, hscore⟩ := step_updates hv
  · constructor
    · rw [hupdates, hreceived]
      exact h.counted
    · rw [upcoming, hupdates, hscore]
      exact h.latest
  · constructor
    · rw [h.counted, hupdates, hreceived, List.length_cons]
      omega
    · rw [← h.latest, upcoming_receive hupdates, upcoming, hscore]

theorem broadcast (h : v.InStep sent globalScore) (score : Score) :
    InStep (sent + 1) score { v with updates := v.updates ++ [score] } := by
  constructor
  · rw [h.counted, List.length_append, List.length_singleton, add_assoc]
  · simp [upcoming]

/-- The loop of the drain ends with the last update, and never waits. -/
theorem drain (h : v.InStep sent globalScore) :
    v.drain sent = .moved { v with globalScore, updates := [], updatesReceived := sent } := by
  have hpending : sent - v.updatesReceived = v.updates.length := by
    have hcounted := h.counted
    omega
  have hlatest := h.latest
  rw [upcoming] at hlatest
  simp only [ScoreWorker.drain, hpending]
  rw [if_pos le_rfl, if_pos h.counted.symm, List.take_length, hlatest, List.drop_length]

end InStep

end ScoreWorker

theorem CenterMove.phase {o o' : Outline W} (h : CenterMove o o') : o'.phase = o.phase := by
  cases h with
  | stay => rfl
  | exit _ _ => rfl
  | collect _ => rfl
  | hear _ _ _ _ => rfl

/-- The worker has handled `TERMINATION`. -/
def Outline.Terminated (o : Outline W) (w : WorkerRank W) : Prop :=
  o.phase w = .barrier ∨ o.phase w = .reported

/-- Every worker is in step with the center, and owed nothing once it has handled
`TERMINATION`. -/
structure Delivery (o : Outline W) (s : Scores W) : Prop where
  inStep : ∀ w, (s.worker w).InStep s.updatesSent s.globalScore
  emptied : ∀ w, o.Terminated w → (s.worker w).updates = []

namespace Delivery

variable {o o' : Outline W} {s t : Scores W} {goal : Goal} {finalUpdate : Bool}

theorem setWorker (h : Delivery o s) {w : WorkerRank W} {v : ScoreWorker}
    (hv : v.InStep s.updatesSent s.globalScore) (hempty : o'.Terminated w → v.updates = [])
    (ho : ∀ x, x ≠ w → o'.Terminated x → o.Terminated x) : Delivery o' (s.setWorker w v) where
  inStep := Scores.forall_setWorker
    (P := fun _ u => u.InStep s.updatesSent s.globalScore) h.inStep hv
  emptied x hx := by
    obtain rfl | hne := eq_or_ne x w
    · simpa [Scores.setWorker] using hempty hx
    · simpa [Scores.setWorker, Function.update_of_ne hne] using h.emptied x (ho x hne hx)

theorem sameUpdates (h : Delivery o s) {w : WorkerRank W} {v : ScoreWorker}
    (hupdates : v.updates = (s.worker w).updates)
    (hreceived : v.updatesReceived = (s.worker w).updatesReceived)
    (hscore : v.globalScore = (s.worker w).globalScore)
    (ho : ∀ x, o'.Terminated x → o.Terminated x) : Delivery o' (s.setWorker w v) := by
  have hold := h.inStep w
  refine h.setWorker ⟨?_, ?_⟩ (fun hw => ?_) fun x _ => ho x
  · rw [hupdates, hreceived]
    exact hold.counted
  · rw [ScoreWorker.upcoming, hupdates, hscore]
    exact hold.latest
  · rw [hupdates]
    exact h.emptied w (ho w hw)

theorem workerStep (h : Delivery o s) {w : WorkerRank W} {e : ScoreWorker.Event}
    (ht : s.workerStep goal finalUpdate w e = .moved t) : Delivery o t := by
  simp only [Scores.workerStep] at ht
  split at ht
  · rename_i v hv
    cases ht
    have hset : Delivery o (s.setWorker w v) := by
      refine h.setWorker ((h.inStep w).step hv) (fun hw => ?_) fun _ _ => id
      obtain ⟨hupdates, _⟩ | ⟨u, hupdates, _⟩ := ScoreWorker.step_updates hv
      · rw [hupdates]
        exact h.emptied w hw
      · rw [h.emptied w hw] at hupdates
        cases hupdates
    exact ⟨hset.inStep, hset.emptied⟩
  · cases ht

theorem consumeScoreFlag (h : Delivery o s) {w : WorkerRank W}
    (ht : s.consumeScoreFlag w = .moved t) : Delivery o t := by
  obtain ⟨final, localScore, _, _, rfl⟩ := Scores.consumeScoreFlag_moved ht
  have hset := h.sameUpdates (w := w) (v := { s.worker w with pc := .updated final }) rfl rfl rfl
    fun _ => id
  exact ⟨hset.inStep, hset.emptied⟩

/-- Nobody has handled `TERMINATION` while the center still broadcasts. -/
theorem maybeBroadcastGlobalScore (h : Delivery o s)
    (hrunning : s.handling ≠ none → ∀ w, ¬ o.Terminated w)
    (ht : s.maybeBroadcastGlobalScore goal = .moved t) : Delivery o t := by
  simp only [Scores.maybeBroadcastGlobalScore] at ht
  split at ht
  · rename_i score hhandling
    split at ht
    · cases ht
      refine ⟨fun w => (h.inStep w).broadcast score, fun w hw => ?_⟩
      exact absurd hw (hrunning (by simp [hhandling]) w)
    · cases ht
      exact ⟨h.inStep, h.emptied⟩
  · cases ht

theorem apply (h : Delivery o s) (hlinked : Linked o s) {e : Effect W}
    (hfollows : e.Follows o o') (ht : e.apply goal s = .moved t) : Delivery o' t := by
  have hrunning : s.handling ≠ none → ∀ w, ¬ o.Terminated w := by
    intro hhandling w hw
    obtain hphase | hphase := eq_or_ne o.centerPhase .receiving
    · obtain hbarrier | hreported := hw
      · exact (hlinked.early hphase w).1 hbarrier
      · exact (hlinked.early hphase w).2 hreported
    · exact hhandling (hlinked.exited hphase).2
  cases e with
  | nothing =>
    cases ht
    rw [hfollows]
    exact h
  | push w =>
    simp only [Effect.apply] at ht
    split at ht
    · cases ht
      rw [hfollows]
      exact h
    · cases ht
  | enter w =>
    obtain ⟨_, _, rfl⟩ := hfollows
    obtain ⟨_, rfl⟩ := Scores.enterFunnel_moved ht
    refine h.sameUpdates rfl rfl rfl fun x hx => ?_
    obtain rfl | hne := eq_or_ne x w
    · simp [Outline.Terminated, Outline.setPhase] at hx
    · simpa [Outline.Terminated, Outline.setPhase, Function.update_of_ne hne] using hx
  | leave w =>
    obtain ⟨_, rfl⟩ := hfollows
    obtain ⟨_, rfl⟩ := Scores.leaveFunnel_moved ht
    refine h.sameUpdates rfl rfl rfl fun x hx => ?_
    obtain rfl | hne := eq_or_ne x w
    · simp [Outline.Terminated, Outline.setPhase] at hx
    · simpa [Outline.Terminated, Outline.setPhase, Function.update_of_ne hne] using hx
  | terminate w =>
    obtain ⟨_, _, rfl⟩ := hfollows
    obtain ⟨v, hv, rfl⟩ := Transition.Outcome.map_eq_moved.mp ht
    rw [(h.inStep w).drain] at hv
    cases hv
    refine h.setWorker ⟨rfl, rfl⟩ (fun _ => rfl) fun x hne hx => ?_
    simpa [Outline.Terminated, Outline.setPhase, Function.update_of_ne hne] using hx
  | report w r =>
    obtain ⟨hphase, rfl⟩ := hfollows
    obtain ⟨_, rfl⟩ := Scores.sendFinalSolution_moved ht
    refine ⟨h.inStep, fun x hx => h.emptied x ?_⟩
    obtain rfl | hne := eq_or_ne x w
    · exact Or.inl hphase
    · simpa [Outline.Terminated, Outline.setPhase, Function.update_of_ne hne] using hx
  | center =>
    simp only [Effect.apply] at ht
    split at ht
    · cases ht
      refine ⟨h.inStep, fun x hx => h.emptied x ?_⟩
      rwa [Outline.Terminated, hfollows.phase] at hx
    · cases ht
  | proposal =>
    have hbroadcast := h.maybeBroadcastGlobalScore hrunning ht
    refine ⟨hbroadcast.inStep, fun x hx => hbroadcast.emptied x ?_⟩
    rwa [Outline.Terminated, hfollows.phase] at hx

end Delivery

namespace Scheduler

variable {S : Scheduler W} {model : DataModel} {goal : Goal} {kind : ScoreType} {init : Score}

theorem delivery_step {s t : S.Scored} (h : Delivery s.outline s.scores)
    (hinv : Invariant goal init s) {e : S.ScoredEvent} (ht : scoredStep goal e s = .moved t) :
    Delivery t.outline t.scores := by
  cases e with
  | process e =>
    obtain ⟨process, hprocess, hrest⟩ := Transition.Outcome.bind_eq_moved.mp ht
    obtain ⟨scores, hscores, rfl⟩ := Transition.Outcome.map_eq_moved.mp hrest
    exact h.apply hinv.linked (S.follows _ _ _ hinv.reachable hprocess) hscores
  | worker w e =>
    simp only [scoredStep, workerStep] at ht
    split at ht
    · obtain ⟨scores, hscores, rfl⟩ := Transition.Outcome.map_eq_moved.mp ht
      exact h.workerStep hscores
    · cases ht
  | consumeScoreFlag w =>
    simp only [scoredStep, consumeScoreFlag] at ht
    split at ht
    · obtain ⟨scores, hscores, rfl⟩ := Transition.Outcome.map_eq_moved.mp ht
      exact h.consumeScoreFlag hscores
    · cases ht
  | maybeBroadcastGlobalScore =>
    simp only [scoredStep, maybeBroadcastGlobalScore] at ht
    split at ht
    · rename_i hphase
      obtain ⟨scores, hscores, rfl⟩ := Transition.Outcome.map_eq_moved.mp ht
      refine h.maybeBroadcastGlobalScore (fun _ w hw => ?_) hscores
      obtain hbarrier | hreported := hw
      · exact (hinv.linked.early hphase.2 w).1 hbarrier
      · exact (hinv.linked.early hphase.2 w).2 hreported
    · cases ht

theorem delivery_of_reachable (hinit : getDefaultScore model goal kind = some init)
    {s : S.Scored} (h : (S.scored model goal kind).Reachable s) :
    Delivery s.outline s.scores := by
  refine h.invariant (I := fun s => Delivery s.outline s.scores) ?_ ?_
  · rintro s ⟨hprocess, hscores⟩
    obtain ⟨_, _, hglobal, _, hworker⟩ := start_eq_some hinit hscores
    have hsent : s.scores.updatesSent = 0 := by
      simp only [Scores.start, NodeManager.setGoal, hinit, Option.map_some] at hscores
      rw [← Option.some.inj hscores]
    have houtline : s.outline = .start W := S.outline_initial _ hprocess
    constructor
    · intro w
      rw [hworker, hsent, hglobal]
      exact ⟨rfl, rfl⟩
    · intro w hw
      rw [houtline] at hw
      obtain hbarrier | hreported := hw
      · cases hbarrier
      · cases hreported
  · intro s e t hs hdelivery _ ht
    exact delivery_step hdelivery (invariant_of_reachable hinit hs) ht

end Scheduler

end Gempba
