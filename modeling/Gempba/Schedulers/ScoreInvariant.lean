import Gempba.Schedulers.ScoreUpdates

/-!
# The invariant of the exchange of scores

The best score that has reached the center only improves. A worker that has
nothing to report has a score the center attains, and the best score is held,
together with a packet, by some worker. A worker out of its funnel's loop is
settled: its score does not improve on the best. Only the last fact depends on
what is done after the loop.
-/

namespace Gempba

set_option autoImplicit false

namespace ScoreWorker

/-- What holds of a worker while `best` is the best score that has reached the center. -/
structure Sound (goal : Goal) (best : Score) (offered : Result → Prop) (v : ScoreWorker) :
    Prop where
  goal_eq : v.manager.goal = goal
  number : v.manager.score.value ≠ none
  view : Attains goal best v.globalScore
  updates : ∀ u ∈ v.updates, Attains goal best u
  stale : v.manager.finalSolution = none → Attains goal best v.manager.score
  offers : ∀ r, offered r → shouldUpdate goal v.manager.score r.score = false
  stored : ∀ r, v.manager.finalSolution = some r → offered r
  idle : v.pc.exited = true → v.poolTasks = 0
  proposing : ∀ final localScore, v.pc = .proposing final localScore →
    Attains goal v.manager.score localScore ∧ (final = true → v.manager.score = localScore)

/-- The score of the worker does not improve on the best one once its last update is done. -/
def Settled (goal : Goal) (best : Score) (v : ScoreWorker) : Prop :=
  v.pc.settled = true → shouldUpdate goal best v.manager.score = false

/-- The worker has a packet for the best score or a better one. -/
def Holds (goal : Goal) (best : Score) (v : ScoreWorker) : Prop :=
  v.manager.finalSolution ≠ none ∧ Attains goal v.manager.score best

/-- The offers known after a step. -/
def Event.offers (offered : Result → Prop) : Event → Result → Prop
  | .offer score packet, r => offered r ∨ r = ⟨score, packet⟩
  | _, r => offered r

variable {goal : Goal} {best best' : Score} {offered : Result → Prop} {v v' : ScoreWorker}
  {finalUpdate : Bool}

theorem exited_of_settled {pc : FunnelPc} (h : pc.settled = true) : pc.exited = true := by
  cases pc with
  | invalidating final =>
    cases final with
    | false => cases h
    | true => rfl
  | outside => rfl
  | left => rfl
  | _ => cases h

theorem receiveScoreFromCenter_eq_some (h : v.receiveScoreFromCenter = some v') :
    ∃ u us, v.updates = u :: us ∧
      v' = { v with
        globalScore := u, updates := us, updatesReceived := v.updatesReceived + 1 } := by
  unfold receiveScoreFromCenter at h
  split at h
  · cases h
  · rename_i u us hupdates
    cases h
    exact ⟨u, us, hupdates, rfl⟩

theorem offer_eq_some {score : Score} {packet : TaskPacket} (h : v.offer score packet = some v') :
    v.poolTasks ≠ 0 ∧ packet ≠ [] ∧
      v' = { v with manager := (v.manager.tryUpdateResult score packet).2 } := by
  unfold offer at h
  split at h
  · rename_i hguard
    cases h
    exact ⟨hguard.1, hguard.2, rfl⟩
  · cases h

theorem poll_eq_some {received : Bool} (h : v.poll received = some v') :
    v.pc = .loop ∧ ∃ u, (u = v ∨ v.receiveScoreFromCenter = some u) ∧
      v' = { u with pc := .comparing false } := by
  unfold poll at h
  split at h
  · rename_i hpc
    obtain ⟨u, hu, rfl⟩ := Option.map_eq_some_iff.mp h
    refine ⟨hpc, u, ?_, rfl⟩
    cases received with
    | true => exact Or.inr hu
    | false => exact Or.inl (Option.some.inj hu).symm
  · cases h

theorem compare_eq_some (h : v.compare goal = some v') :
    ∃ final, v.pc = .comparing final ∧
      (shouldUpdate goal v.manager.score v.globalScore = true ∧
          v' = { v with pc := .invalidating final } ∨
        shouldUpdate goal v.globalScore v.manager.score = true ∧
          v' = { v with pc := .proposing final v.manager.score } ∨
        shouldUpdate goal v.globalScore v.manager.score = false ∧
          v' = { v with pc := .updated final }) := by
  unfold compare at h
  split at h
  · rename_i final hpc
    refine ⟨final, hpc, ?_⟩
    cases h
    split
    · rename_i hlocal
      exact Or.inl ⟨hlocal, rfl⟩
    · split
      · rename_i hglobal
        exact Or.inr (Or.inl ⟨hglobal, rfl⟩)
      · rename_i hglobal
        exact Or.inr (Or.inr ⟨by simpa using hglobal, rfl⟩)
  · cases h

theorem invalidate_eq_some (h : v.invalidate = some v') :
    ∃ final, v.pc = .invalidating final ∧
      v' = { v with
        manager := (v.manager.tryUpdateScoreAndInvalidateResult v.globalScore).2
        pc := .updated final } := by
  unfold invalidate at h
  split at h
  · rename_i final hpc
    cases h
    exact ⟨final, hpc, rfl⟩
  · cases h

theorem finishLoop_eq_some (h : v.finishLoop finalUpdate = some v') :
    v.pc = .polled ∧ v.poolTasks = 0 ∧
      v' = { v with pc := if finalUpdate then .comparing true else .left } := by
  unfold finishLoop at h
  split at h
  · rename_i hguard
    cases h
    exact ⟨hguard.1, hguard.2, rfl⟩
  · cases h

namespace Sound

theorem improve (h : v.Sound goal best offered) (hbest : Attains goal best' best) :
    v.Sound goal best' offered :=
  { h with
    view := hbest.trans h.view
    updates := fun u hu => hbest.trans (h.updates u hu)
    stale := fun hnone => hbest.trans (h.stale hnone) }

theorem goTo (h : v.Sound goal best offered) (pc : FunnelPc)
    (hidle : pc.exited = true → v.poolTasks = 0)
    (hpc : ∀ final localScore, pc ≠ .proposing final localScore) :
    Sound goal best offered { v with pc } :=
  { h with
    idle := hidle
    proposing := fun final localScore he => absurd he (hpc final localScore) }

theorem receive (h : v.Sound goal best offered) (hv : v.receiveScoreFromCenter = some v') :
    v'.Sound goal best offered := by
  obtain ⟨u, us, hupdates, rfl⟩ := receiveScoreFromCenter_eq_some hv
  exact { h with
    view := h.updates u (by simp [hupdates])
    updates := fun x hx => h.updates x (by simp [hupdates, hx]) }

theorem offer (h : v.Sound goal best offered) {score : Score} {packet : TaskPacket}
    (hv : v.offer score packet = some v') :
    v'.Sound goal best ((Event.offer score packet).offers offered) := by
  obtain ⟨hpool, hpacket, rfl⟩ := offer_eq_some hv
  have hexited : v.pc.exited ≠ true := fun he => hpool (h.idle he)
  cases hupdate : v.manager.shouldUpdateResult score with
  | false =>
    have hmanager : (v.manager.tryUpdateResult score packet).2 = v.manager := by
      simp [NodeManager.tryUpdateResult, hupdate]
    rw [hmanager]
    have hkeeps : shouldUpdate goal v.manager.score score = false := by
      rw [← hupdate, NodeManager.shouldUpdateResult, h.goal_eq]
    refine { h with offers := ?_, stored := ?_ }
    · rintro r (hr | rfl)
      · exact h.offers r hr
      · exact hkeeps
    · intro r hr
      exact Or.inl (h.stored r hr)
  | true =>
    have hfinal := NodeManager.finalSolution_tryUpdateResult hpacket hupdate
    have hscore : (v.manager.tryUpdateResult score packet).2.score = score := by
      simp [NodeManager.tryUpdateResult, hupdate]
    have himproves : shouldUpdate goal v.manager.score score = true := by
      rw [← hupdate, NodeManager.shouldUpdateResult, h.goal_eq]
    exact {
      goal_eq := by
        rw [NodeManager.tryUpdateResult, if_pos hupdate]
        exact h.goal_eq
      number := by
        rw [hscore]
        exact value_ne_none_of_shouldUpdate himproves
      view := h.view
      updates := h.updates
      stale := fun hnone => absurd hnone (by simp [hfinal])
      offers := by
        rw [hscore]
        rintro r (hr | rfl)
        · rw [Bool.eq_false_iff]
          intro hr'
          have hold := h.offers r hr
          rw [shouldUpdate_trans himproves hr'] at hold
          cases hold
        · exact shouldUpdate_self
      stored := by
        intro r hr
        rw [hfinal] at hr
        exact Or.inr (Option.some.inj hr).symm
      idle := h.idle
      proposing := fun final localScore hpc => by
        refine ⟨?_, fun hfinal => ?_⟩
        · rw [hscore]
          exact (Attains.of_update himproves).trans (h.proposing final localScore hpc).1
        · rw [hpc, hfinal] at hexited
          exact absurd rfl hexited }

theorem compare (h : v.Sound goal best offered) (hv : v.compare goal = some v') :
    v'.Sound goal best offered := by
  obtain ⟨final, hpc, ⟨_, rfl⟩ | ⟨_, rfl⟩ | ⟨_, rfl⟩⟩ := compare_eq_some hv
  · refine h.goTo _ (fun hexited => h.idle ?_) (by simp)
    rw [hpc]
    cases final with
    | false => cases hexited
    | true => rfl
  · refine { h with idle := fun hexited => h.idle ?_, proposing := ?_ }
    · rw [hpc]
      cases final with
      | false => cases hexited
      | true => rfl
    · rintro final' localScore ⟨⟩
      exact ⟨.refl _, fun _ => rfl⟩
  · refine h.goTo _ (fun hexited => h.idle ?_) fun _ _ he => ?_
    · rw [hpc]
      cases final with
      | false => cases hexited
      | true => rfl
    · cases final <;> cases he

theorem invalidate (h : v.Sound goal best offered) (hv : v.invalidate = some v') :
    v'.Sound goal best offered := by
  obtain ⟨final, hpc, rfl⟩ := invalidate_eq_some hv
  have hidle : (FunnelPc.updated final).exited = true → v.poolTasks = 0 := fun hexited => by
    apply h.idle
    rw [hpc]
    cases final with
    | false => cases hexited
    | true => rfl
  have hnext : ∀ final' localScore, FunnelPc.updated final ≠ .proposing final' localScore := by
    intro final' localScore he
    cases final <;> cases he
  cases hupdate : v.manager.shouldUpdateResult v.globalScore with
  | false =>
    rw [NodeManager.tryUpdateScoreAndInvalidateResult, hupdate]
    exact h.goTo _ hidle hnext
  | true =>
    have hfinal := NodeManager.finalSolution_tryUpdateScoreAndInvalidateResult hupdate
    have himproves : shouldUpdate goal v.manager.score v.globalScore = true := by
      rw [← hupdate, NodeManager.shouldUpdateResult, h.goal_eq]
    have hmanager : (v.manager.tryUpdateScoreAndInvalidateResult v.globalScore).2 =
        { v.manager with score := v.globalScore, result := some [] } := by
      simp [NodeManager.tryUpdateScoreAndInvalidateResult, hupdate]
    rw [hmanager] at hfinal ⊢
    exact {
      goal_eq := h.goal_eq
      number := value_ne_none_of_shouldUpdate himproves
      view := h.view
      updates := h.updates
      stale := fun _ => h.view
      offers := by
        intro r hr
        rw [Bool.eq_false_iff]
        intro hr'
        have hold := h.offers r hr
        rw [shouldUpdate_trans himproves hr'] at hold
        cases hold
      stored := fun r hr => by
        rw [hfinal] at hr
        cases hr
      idle := hidle
      proposing := fun final' localScore he => absurd he (hnext final' localScore) }

theorem step (h : v.Sound goal best offered) {e : Event}
    (hv : v.step goal finalUpdate e = some v') : v'.Sound goal best (e.offers offered) := by
  cases e with
  | receiveScore => exact h.receive hv
  | submit =>
    simp only [ScoreWorker.step, ScoreWorker.submit] at hv
    split at hv
    · rename_i hpool
      cases hv
      exact { h with idle := fun hexited => absurd (h.idle hexited) hpool }
    · cases hv
  | finishTask =>
    simp only [ScoreWorker.step, ScoreWorker.finishTask] at hv
    split at hv
    · rename_i hpool
      cases hv
      exact { h with idle := fun hexited => absurd (h.idle hexited) hpool }
    · cases hv
  | offer score packet => exact h.offer hv
  | poll received =>
    obtain ⟨_, u, hu, rfl⟩ := poll_eq_some hv
    refine goTo ?_ _ (fun hexited => by cases hexited) (by simp)
    obtain rfl | hu := hu
    · exact h
    · exact h.receive hu
  | compare => exact h.compare hv
  | invalidate => exact h.invalidate hv
  | continueLoop =>
    simp only [ScoreWorker.step, ScoreWorker.continueLoop] at hv
    split at hv
    · cases hv
      exact h.goTo _ (fun hexited => by cases hexited) (by simp)
    · cases hv
  | finishLoop =>
    obtain ⟨_, hpool, rfl⟩ := finishLoop_eq_some hv
    refine h.goTo _ (fun _ => hpool) fun _ _ he => ?_
    cases finalUpdate <;> cases he

end Sound

theorem Settled.improve (h : v.Settled goal best) (hbest : Attains goal best' best) :
    v.Settled goal best' := by
  intro hpc
  rw [Bool.eq_false_iff]
  intro hupdate
  have hold := h hpc
  obtain rfl | hbest := hbest
  · rw [hupdate] at hold
    cases hold
  · rw [shouldUpdate_trans hbest hupdate] at hold
    cases hold

/-- A worker settles when the loop is followed by an update, or has nothing better to propose. -/
theorem Settled.step (h : v.Settled goal best) (hsound : v.Sound goal best offered) {e : Event}
    (hfinish : e = .finishLoop → finalUpdate = true ∨
      shouldUpdate goal best v.manager.score = false)
    (hv : v.step goal finalUpdate e = some v') : v'.Settled goal best := by
  cases e with
  | receiveScore =>
    obtain ⟨u, us, _, rfl⟩ := receiveScoreFromCenter_eq_some hv
    exact h
  | submit =>
    simp only [ScoreWorker.step, ScoreWorker.submit] at hv
    split at hv <;> cases hv
    exact h
  | finishTask =>
    simp only [ScoreWorker.step, ScoreWorker.finishTask] at hv
    split at hv <;> cases hv
    exact h
  | offer score packet =>
    obtain ⟨hpool, _, rfl⟩ := offer_eq_some hv
    intro hpc
    exact absurd (hsound.idle (exited_of_settled hpc)) hpool
  | poll received =>
    obtain ⟨_, u, _, rfl⟩ := poll_eq_some hv
    intro hpc
    cases hpc
  | compare =>
    obtain ⟨final, _, ⟨hlocal, rfl⟩ | ⟨_, rfl⟩ | ⟨hglobal, rfl⟩⟩ := compare_eq_some hv
    · intro _
      exact (Attains.of_update (hsound.view.update_right hlocal)).not_update
    · intro hpc
      cases hpc
    · intro _
      rw [Bool.eq_false_iff]
      intro hupdate
      obtain hview | hview := hsound.view
      · rw [← hview, hupdate] at hglobal
        cases hglobal
      · rw [shouldUpdate_trans hview hupdate] at hglobal
        cases hglobal
  | invalidate =>
    obtain ⟨final, hpc, rfl⟩ := invalidate_eq_some hv
    intro hsettled
    have hfinal : final = true := by
      cases final with
      | false => cases hsettled
      | true => rfl
    subst hfinal
    have hold := h (by rw [hpc]; rfl)
    unfold NodeManager.tryUpdateScoreAndInvalidateResult
    split
    · exact hsound.view.not_update
    · exact hold
  | continueLoop =>
    simp only [ScoreWorker.step, ScoreWorker.continueLoop] at hv
    split at hv <;> cases hv
    intro hpc
    cases hpc
  | finishLoop =>
    obtain ⟨_, _, rfl⟩ := finishLoop_eq_some hv
    intro hpc
    obtain rfl | hscore := hfinish rfl
    · cases hpc
    · exact hscore

theorem Holds.step (h : v.Holds goal best) (hsound : v.Sound goal best offered) {e : Event}
    (hv : v.step goal finalUpdate e = some v') : v'.Holds goal best := by
  cases e with
  | receiveScore =>
    obtain ⟨u, us, _, rfl⟩ := receiveScoreFromCenter_eq_some hv
    exact h
  | submit =>
    simp only [ScoreWorker.step, ScoreWorker.submit] at hv
    split at hv <;> cases hv
    exact h
  | finishTask =>
    simp only [ScoreWorker.step, ScoreWorker.finishTask] at hv
    split at hv <;> cases hv
    exact h
  | offer score packet =>
    obtain ⟨_, hpacket, rfl⟩ := offer_eq_some hv
    cases hupdate : v.manager.shouldUpdateResult score with
    | false =>
      rw [NodeManager.tryUpdateResult, hupdate]
      exact h
    | true =>
      have hfinal := NodeManager.finalSolution_tryUpdateResult hpacket hupdate
      have hscore := NodeManager.score_of_finalSolution hfinal
      have himproves : shouldUpdate goal v.manager.score score = true := by
        rw [← hupdate, NodeManager.shouldUpdateResult, hsound.goal_eq]
      refine ⟨by simp [hfinal], ?_⟩
      rw [← hscore]
      exact (Attains.of_update himproves).trans h.2
  | poll received =>
    obtain ⟨_, u, hu, rfl⟩ := poll_eq_some hv
    obtain rfl | hu := hu
    · exact h
    · obtain ⟨_, _, _, rfl⟩ := receiveScoreFromCenter_eq_some hu
      exact h
  | compare =>
    obtain ⟨_, _, ⟨_, rfl⟩ | ⟨_, rfl⟩ | ⟨_, rfl⟩⟩ := compare_eq_some hv
    · exact h
    · exact h
    · exact h
  | invalidate =>
    obtain ⟨_, _, rfl⟩ := invalidate_eq_some hv
    -- a holder's score attains the best one, which no copy of the global score improves on
    have hkeeps : v.manager.shouldUpdateResult v.globalScore = false := by
      rw [NodeManager.shouldUpdateResult, hsound.goal_eq, Bool.eq_false_iff]
      intro hupdate
      have hnot := h.2.not_update
      rw [hsound.view.update_right hupdate] at hnot
      cases hnot
    rw [NodeManager.tryUpdateScoreAndInvalidateResult, hkeeps]
    exact h
  | continueLoop =>
    simp only [ScoreWorker.step, ScoreWorker.continueLoop] at hv
    split at hv <;> cases hv
    exact h
  | finishLoop =>
    obtain ⟨_, _, rfl⟩ := finishLoop_eq_some hv
    exact h

theorem step_pc {e : Event} (hv : v.step goal finalUpdate e = some v') :
    v'.pc = .outside ↔ v.pc = .outside := by
  cases e with
  | receiveScore =>
    obtain ⟨_, _, _, rfl⟩ := receiveScoreFromCenter_eq_some hv
    exact Iff.rfl
  | submit =>
    simp only [ScoreWorker.step, ScoreWorker.submit] at hv
    split at hv <;> cases hv
    exact Iff.rfl
  | finishTask =>
    simp only [ScoreWorker.step, ScoreWorker.finishTask] at hv
    split at hv <;> cases hv
    exact Iff.rfl
  | offer score packet =>
    obtain ⟨_, _, rfl⟩ := offer_eq_some hv
    exact Iff.rfl
  | poll received =>
    obtain ⟨hpc, _, _, rfl⟩ := poll_eq_some hv
    simp [hpc]
  | compare =>
    obtain ⟨final, hpc, ⟨_, rfl⟩ | ⟨_, rfl⟩ | ⟨_, rfl⟩⟩ := compare_eq_some hv
    · simp [hpc]
    · simp [hpc]
    · cases final <;> simp [hpc, FunnelPc.updated]
  | invalidate =>
    obtain ⟨final, hpc, rfl⟩ := invalidate_eq_some hv
    cases final <;> simp [hpc, FunnelPc.updated]
  | continueLoop =>
    simp only [ScoreWorker.step, ScoreWorker.continueLoop] at hv
    split at hv
    · rename_i hpc
      cases hv
      simp [hpc]
    · cases hv
  | finishLoop =>
    obtain ⟨hpc, _, rfl⟩ := finishLoop_eq_some hv
    cases finalUpdate <;> simp [hpc]

/-- Outside its funnel, with an empty pool, a worker keeps its result. -/
theorem step_outside (hpc : v.pc = .outside) (hpool : v.poolTasks = 0) {e : Event}
    (hv : v.step goal finalUpdate e = some v') : v'.manager = v.manager := by
  cases e with
  | receiveScore =>
    obtain ⟨_, _, _, rfl⟩ := receiveScoreFromCenter_eq_some hv
    rfl
  | submit => simp [ScoreWorker.step, ScoreWorker.submit, hpool] at hv
  | finishTask => simp [ScoreWorker.step, ScoreWorker.finishTask, hpool] at hv
  | offer score packet => exact absurd hpool (offer_eq_some hv).1
  | poll received =>
    obtain ⟨he, _⟩ := poll_eq_some hv
    simp [hpc] at he
  | compare =>
    obtain ⟨_, he, _⟩ := compare_eq_some hv
    simp [hpc] at he
  | invalidate =>
    obtain ⟨_, he, _⟩ := invalidate_eq_some hv
    simp [hpc] at he
  | continueLoop => simp [ScoreWorker.step, ScoreWorker.continueLoop, hpc] at hv
  | finishLoop =>
    obtain ⟨he, _⟩ := finishLoop_eq_some hv
    simp [hpc] at he

theorem drain_moved {sent : ℕ} (hv : v.drain sent = .moved v') :
    ∃ score us, (score = v.globalScore ∨ score ∈ v.updates) ∧ (∀ u ∈ us, u ∈ v.updates) ∧
      v' = { v with globalScore := score, updates := us, updatesReceived := sent } := by
  simp only [drain] at hv
  split at hv
  · split at hv
    · cases hv
      refine ⟨_, _, ?_, fun u hu => List.mem_of_mem_drop hu, rfl⟩
      cases hlast : (v.updates.take (sent - v.updatesReceived)).getLast? with
      | none => exact Or.inl rfl
      | some score => exact Or.inr (List.mem_of_mem_take (List.mem_of_getLast? hlast))
    · cases hv
  · cases hv

end ScoreWorker

namespace Scores

variable {W : World} {goal : Goal} {init : Score} {finalUpdate : Bool} {s t : Scores W}

/-- The best score that has reached the center, the proposal in its hand included. -/
def best (goal : Goal) (s : Scores W) : Score :=
  match s.handling with
  | some score => if shouldUpdate goal s.globalScore score then score else s.globalScore
  | none => s.globalScore

structure Sound (goal : Goal) (init : Score) (s : Scores W) : Prop where
  worker : ∀ w, (s.worker w).Sound goal (s.best goal) fun r => (w, r) ∈ s.offers
  attains : Attains goal (s.best goal) init
  held : s.best goal = init ∨ ∃ w, (s.worker w).Holds goal (s.best goal)
  packets : ∀ x ∈ s.offers, x.2.packet ≠ []

def Settled (goal : Goal) (s : Scores W) : Prop := ∀ w, (s.worker w).Settled goal (s.best goal)

theorem forall_setWorker {P : WorkerRank W → ScoreWorker → Prop} (h : ∀ x, P x (s.worker x))
    {w : WorkerRank W} {v : ScoreWorker} (hv : P w v) (x : WorkerRank W) :
    P x ((s.setWorker w v).worker x) := by
  obtain rfl | hx := eq_or_ne x w
  · simpa [setWorker] using hv
  · simpa [setWorker, Function.update_of_ne hx] using h x

theorem exists_setWorker {P : ScoreWorker → Prop} (h : ∃ x, P (s.worker x))
    {w : WorkerRank W} {v : ScoreWorker} (hv : P (s.worker w) → P v) :
    ∃ x, P ((s.setWorker w v).worker x) := by
  obtain ⟨x, hx⟩ := h
  obtain rfl | hne := eq_or_ne x w
  · exact ⟨x, by simpa [setWorker] using hv hx⟩
  · exact ⟨x, by simpa [setWorker, Function.update_of_ne hne] using hx⟩

theorem workerStep_moved {w : WorkerRank W} {e : ScoreWorker.Event}
    (h : workerStep goal finalUpdate w e s = .moved t) :
    ∃ v, (s.worker w).step goal finalUpdate e = some v ∧ t.worker = (s.setWorker w v).worker ∧
      t.globalScore = s.globalScore ∧ t.handling = s.handling ∧ t.reported = s.reported ∧
      ∀ x r, (x, r) ∈ t.offers ↔ (x, r) ∈ s.offers ∨
        x = w ∧ ∃ score packet, e = .offer score packet ∧ r = ⟨score, packet⟩ := by
  simp only [workerStep] at h
  split at h
  · rename_i v hv
    cases h
    refine ⟨v, hv, rfl, rfl, rfl, rfl, fun x r => ?_⟩
    cases e with
    | offer score packet => simp
    | _ => simp
  · cases h

theorem consumeScoreFlag_moved {w : WorkerRank W} (h : consumeScoreFlag w s = .moved t) :
    ∃ final localScore, (s.worker w).pc = .proposing final localScore ∧ s.handling = none ∧
      t = { s.setWorker w { s.worker w with pc := .updated final } with
        handling := some localScore } := by
  simp only [consumeScoreFlag] at h
  split at h
  · rename_i final localScore hpc hhandling
    cases h
    exact ⟨final, localScore, hpc, hhandling, rfl⟩
  · cases h

theorem enterFunnel_moved {w : WorkerRank W} (h : enterFunnel w s = .moved t) :
    (s.worker w).pc = .outside ∧
      t = s.setWorker w { s.worker w with pc := .loop, poolTasks := 1 } := by
  simp only [enterFunnel] at h
  split at h
  · rename_i hpc
    cases h
    exact ⟨hpc, rfl⟩
  · cases h

theorem leaveFunnel_moved {w : WorkerRank W} (h : leaveFunnel w s = .moved t) :
    (s.worker w).pc = .left ∧ t = s.setWorker w { s.worker w with pc := .outside } := by
  simp only [leaveFunnel] at h
  split at h
  · rename_i hpc
    cases h
    exact ⟨hpc, rfl⟩
  · cases h

theorem sendFinalSolution_moved {w : WorkerRank W} {r : Report}
    (h : sendFinalSolution w r s = .moved t) :
    r = (s.worker w).manager.finalSolution ∧
      t = { s with reported := Function.update s.reported w (some r) } := by
  simp only [sendFinalSolution] at h
  split at h
  · rename_i hr
    cases h
    exact ⟨hr, rfl⟩
  · cases h

theorem Sound.setWorker (h : s.Sound goal init) {w : WorkerRank W} {v : ScoreWorker}
    (hv : v.Sound goal (s.best goal) fun r => (w, r) ∈ s.offers)
    (hmanager : v.manager = (s.worker w).manager) : (s.setWorker w v).Sound goal init where
  worker := forall_setWorker (P := fun x v => v.Sound goal (s.best goal) fun r => (x, r) ∈ s.offers)
    h.worker hv
  attains := h.attains
  held := h.held.imp_right fun hheld => exists_setWorker hheld fun hw => by
    unfold ScoreWorker.Holds
    rw [hmanager]
    exact hw
  packets := h.packets

theorem Settled.setWorker (h : s.Settled goal) {w : WorkerRank W} {v : ScoreWorker}
    (hv : v.Settled goal (s.best goal)) : (s.setWorker w v).Settled goal :=
  forall_setWorker (P := fun _ v => v.Settled goal (s.best goal)) h hv

theorem best_of_eq (hscore : t.globalScore = s.globalScore) (hhandling : t.handling = s.handling) :
    t.best goal = s.best goal := by
  unfold best
  rw [hscore, hhandling]

namespace Sound

theorem workerStep (h : s.Sound goal init) {w : WorkerRank W} {e : ScoreWorker.Event}
    (ht : workerStep goal finalUpdate w e s = .moved t) : t.Sound goal init := by
  obtain ⟨v, hv, hworker, hscore, hhandling, _, hoffers⟩ := workerStep_moved ht
  have hbest : t.best goal = s.best goal := best_of_eq hscore hhandling
  refine ⟨fun x => ?_, hbest ▸ h.attains, ?_, ?_⟩
  · rw [hbest, hworker]
    obtain rfl | hx := eq_or_ne x w
    · have hstep := (h.worker x).step hv
      have hiff : (fun r => (x, r) ∈ t.offers) = e.offers fun r => (x, r) ∈ s.offers := by
        funext r
        rw [eq_iff_iff, hoffers x r]
        cases e with
        | offer score packet => simp [ScoreWorker.Event.offers]
        | _ => simp [ScoreWorker.Event.offers]
      rw [hiff]
      simpa [Scores.setWorker] using hstep
    · have hiff : (fun r => (x, r) ∈ t.offers) = fun r => (x, r) ∈ s.offers := by
        funext r
        rw [eq_iff_iff, hoffers x r]
        simp [hx]
      rw [hiff]
      simpa [Scores.setWorker, Function.update_of_ne hx] using h.worker x
  · rw [hbest, hworker]
    exact h.held.imp_right fun hheld =>
      exists_setWorker hheld fun hw => hw.step (h.worker w) hv
  · rintro ⟨x, r⟩ hx
    obtain hx | ⟨_, score, packet, rfl, rfl⟩ := (hoffers x r).mp hx
    · exact h.packets _ hx
    · exact (ScoreWorker.offer_eq_some hv).2.1

/-- A proposal that improves on the best score is held by the worker that made it. -/
theorem consumeScoreFlag (h : s.Sound goal init) {w : WorkerRank W}
    (ht : consumeScoreFlag w s = .moved t) : t.Sound goal init := by
  obtain ⟨final, localScore, hpc, hhandling, rfl⟩ := consumeScoreFlag_moved ht
  have hold : s.best goal = s.globalScore := by simp [best, hhandling]
  have hproposed := ((h.worker w).proposing final localScore hpc).1
  have hv : ScoreWorker.Sound goal (s.best goal) (fun r => (w, r) ∈ s.offers)
      { s.worker w with pc := .updated final } := by
    refine (h.worker w).goTo _ (fun hexited => (h.worker w).idle ?_) fun _ _ he => ?_
    · rw [hpc]
      cases final with
      | false => cases hexited
      | true => rfl
    · cases final <;> cases he
  have hsound := h.setWorker hv rfl
  cases hupdate : shouldUpdate goal s.globalScore localScore with
  | false =>
    have hbest : Scores.best goal { s.setWorker w { s.worker w with pc := .updated final } with
        handling := some localScore } = s.best goal := by
      rw [hold]
      simp [best, Scores.setWorker, hupdate]
    exact ⟨fun x => hbest ▸ hsound.worker x, hbest ▸ hsound.attains, hbest ▸ hsound.held,
      h.packets⟩
  | true =>
    have hbest : Scores.best goal { s.setWorker w { s.worker w with pc := .updated final } with
        handling := some localScore } = localScore := by
      simp [best, Scores.setWorker, hupdate]
    have himproves : Attains goal localScore (s.best goal) := by
      rw [hold]
      exact .of_update hupdate
    refine ⟨fun x => ?_, ?_, Or.inr ⟨w, ?_⟩, h.packets⟩
    · rw [hbest]
      exact (hsound.worker x).improve himproves
    · rw [hbest]
      exact himproves.trans h.attains
    · rw [hbest]
      have hmanager : ((s.setWorker w { s.worker w with pc := .updated final }).worker w).manager =
          (s.worker w).manager := by
        simp [Scores.setWorker]
      constructor
      · rw [hmanager]
        intro hnone
        -- without a packet the worker's score would be one the center attains already
        have hnot := (((h.worker w).stale hnone).trans hproposed).not_update
        rw [hold, hupdate] at hnot
        cases hnot
      · rw [hmanager]
        exact hproposed

theorem maybeBroadcastGlobalScore (h : s.Sound goal init)
    (ht : maybeBroadcastGlobalScore goal s = .moved t) :
    t.Sound goal init ∧ t.best goal = s.best goal := by
  simp only [Scores.maybeBroadcastGlobalScore] at ht
  split at ht
  · rename_i score hhandling
    split at ht
    · rename_i hupdate
      cases ht
      have hbest : s.best goal = score := by simp [best, hhandling, hupdate]
      refine ⟨⟨fun w => ?_, ?_, ?_, h.packets⟩, hbest.symm⟩
      · have hw := h.worker w
        rw [hbest] at hw
        refine { hw with updates := fun u hu => ?_ }
        obtain hu | hu := List.mem_append.mp hu
        · exact hw.updates u hu
        · rw [List.mem_singleton.mp hu]
          exact .refl _
      · have hattains := h.attains
        rw [hbest] at hattains
        exact hattains
      · have hheld := h.held
        rw [hbest] at hheld
        exact hheld
    · rename_i hupdate
      cases ht
      have hbest : s.best goal = s.globalScore := by simp [best, hhandling, hupdate]
      refine ⟨⟨fun w => ?_, ?_, ?_, h.packets⟩, hbest.symm⟩
      · have hw := h.worker w
        rw [hbest] at hw
        exact hw
      · have hattains := h.attains
        rw [hbest] at hattains
        exact hattains
      · have hheld := h.held
        rw [hbest] at hheld
        exact hheld
  · cases ht

theorem enterFunnel (h : s.Sound goal init) {w : WorkerRank W}
    (ht : enterFunnel w s = .moved t) : t.Sound goal init := by
  obtain ⟨_, rfl⟩ := enterFunnel_moved ht
  refine h.setWorker { h.worker w with idle := fun hexited => ?_, proposing := ?_ } rfl
  · cases hexited
  · intro _ _ he
    cases he

theorem leaveFunnel (h : s.Sound goal init) {w : WorkerRank W}
    (ht : leaveFunnel w s = .moved t) : t.Sound goal init := by
  obtain ⟨hpc, rfl⟩ := leaveFunnel_moved ht
  exact h.setWorker ((h.worker w).goTo _ (fun _ => (h.worker w).idle (by rw [hpc]; rfl)) (by simp))
    rfl

theorem drain (h : s.Sound goal init) {w : WorkerRank W} (ht : drain w s = .moved t) :
    t.Sound goal init := by
  obtain ⟨v, hv, rfl⟩ := Transition.Outcome.map_eq_moved.mp ht
  obtain ⟨score, us, hscore, hus, rfl⟩ := ScoreWorker.drain_moved hv
  refine h.setWorker { h.worker w with view := ?_, updates := ?_ } rfl
  · obtain rfl | hscore := hscore
    · exact (h.worker w).view
    · exact (h.worker w).updates score hscore
  · intro u hu
    exact (h.worker w).updates u (hus u hu)

theorem sendFinalSolution (h : s.Sound goal init) {w : WorkerRank W} {r : Report}
    (ht : sendFinalSolution w r s = .moved t) : t.Sound goal init := by
  obtain ⟨_, rfl⟩ := sendFinalSolution_moved ht
  exact ⟨h.worker, h.attains, h.held, h.packets⟩

end Sound

namespace Settled

theorem workerStep (h : s.Settled goal) (hsound : s.Sound goal init) {w : WorkerRank W}
    {e : ScoreWorker.Event}
    (hfinish : e = .finishLoop → finalUpdate = true ∨
      shouldUpdate goal (s.best goal) (s.worker w).manager.score = false)
    (ht : workerStep goal finalUpdate w e s = .moved t) : t.Settled goal := by
  obtain ⟨v, hv, hworker, hscore, hhandling, _, _⟩ := workerStep_moved ht
  have hbest : t.best goal = s.best goal := best_of_eq hscore hhandling
  intro x
  rw [hbest, hworker]
  exact h.setWorker ((h w).step (hsound.worker w) hfinish hv) x

theorem consumeScoreFlag (h : s.Settled goal) (hsound : s.Sound goal init) {w : WorkerRank W}
    (ht : consumeScoreFlag w s = .moved t) : t.Settled goal := by
  obtain ⟨final, localScore, hpc, hhandling, rfl⟩ := consumeScoreFlag_moved ht
  have hold : s.best goal = s.globalScore := by simp [best, hhandling]
  have hattains : Attains goal (Scores.best goal
      { s.setWorker w { s.worker w with pc := .updated final } with handling := some localScore })
        (s.best goal) := by
    rw [hold]
    cases hupdate : shouldUpdate goal s.globalScore localScore with
    | false =>
      simp only [best, Scores.setWorker, hupdate, Bool.false_eq_true, if_false]
      exact .refl _
    | true =>
      simp only [best, Scores.setWorker, hupdate, if_true]
      exact .of_update hupdate
  intro x
  obtain rfl | hx := eq_or_ne x w
  · intro hsettled
    simp only [Scores.setWorker, Function.update_self] at hsettled ⊢
    have hfinal : final = true := by
      cases final with
      | false => cases hsettled
      | true => rfl
    rw [((hsound.worker x).proposing final localScore hpc).2 hfinal]
    cases hupdate : shouldUpdate goal s.globalScore localScore with
    | false => simp [best, hupdate]
    | true => simp [best, hupdate]
  · have hother := (h x).improve hattains
    simpa [Scores.setWorker, Function.update_of_ne hx] using hother

theorem maybeBroadcastGlobalScore (h : s.Settled goal) (hsound : s.Sound goal init)
    (ht : maybeBroadcastGlobalScore goal s = .moved t) : t.Settled goal := by
  have hbest := (hsound.maybeBroadcastGlobalScore ht).2
  intro x
  rw [hbest]
  simp only [Scores.maybeBroadcastGlobalScore] at ht
  split at ht
  · split at ht
    · cases ht
      exact h x
    · cases ht
      exact h x
  · cases ht

theorem enterFunnel (h : s.Settled goal) {w : WorkerRank W} (ht : enterFunnel w s = .moved t) :
    t.Settled goal := by
  obtain ⟨_, rfl⟩ := enterFunnel_moved ht
  apply h.setWorker
  intro hpc
  cases hpc

theorem leaveFunnel (h : s.Settled goal) {w : WorkerRank W} (ht : leaveFunnel w s = .moved t) :
    t.Settled goal := by
  obtain ⟨hpc, rfl⟩ := leaveFunnel_moved ht
  apply h.setWorker
  intro _
  exact h w (by rw [hpc]; rfl)

theorem drain (h : s.Settled goal) {w : WorkerRank W} (ht : drain w s = .moved t) :
    t.Settled goal := by
  obtain ⟨v, hv, rfl⟩ := Transition.Outcome.map_eq_moved.mp ht
  obtain ⟨_, _, _, _, rfl⟩ := ScoreWorker.drain_moved hv
  exact h.setWorker (h w)

end Settled

end Scores

end Gempba
