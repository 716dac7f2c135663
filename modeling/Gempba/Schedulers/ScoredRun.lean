import Gempba.Schedulers.Outline

/-!
# Runs of a scheduler with its scores

A scheduler and the exchange of scores take their steps together: a step of
the scheduler moves the scores by its effect, and the workers exchange scores
in between. The center takes one message at a time, so that it does nothing
else while it handles a proposal.
-/

namespace Gempba

set_option autoImplicit false

/-- A scheduler as the exchange of scores sees it. -/
structure Scheduler (W : World) where
  State : Type
  Event : Type
  machine : Transition.Machine State Event Fault
  outline : State → Outline W
  effect : Event → Effect W
  /-- `update_score` is called once more after the funnel's loop. -/
  finalUpdate : Bool
  /-- The handling of a proposal is an event of the machine. -/
  handlesProposal : Bool
  outline_initial : ∀ s, machine.initial s → outline s = .start W
  follows : ∀ s e t, machine.Reachable s → machine.step e s = .moved t →
    (effect e).Follows (outline s) (outline t)

namespace SemiCentralized

variable {W : World}

def effect : Event W → Effect W
  | .processMessage w _ _ => .enter w
  | .push w _ _ => .push w
  | .leaveFunnel w => .leave w
  | .processTermination w => .terminate w
  | .sendFinalSolution w r => .report w r
  | .centerState _ _ | .centerAck _ | .centerBarrier | .receiveSolutionFrom _ _ => .center
  | .receiveNextProcess _ _ | .poll _ _ | .send _ | .receiveAck _ _ => .nothing

theorem centerAck_follows {s t : State W} (ht : Invariant t) {source : Rank W}
    (h : centerAck source s = .moved t) : CenterMove s.outline t.outline := by
  obtain ⟨u, hack, rfl⟩ := Transition.Outcome.map_eq_moved.mp h
  have hsame := SchedulerState.centerAck_follows hack
  obtain ⟨hphase, _, _, _, hu⟩ := SchedulerState.centerAck_moved hack
  have hreceiving : u.centerPhase = .receiving := by
    rw [hu]
    exact hphase
  split
  · rename_i hzero
    rw [if_pos hzero] at ht
    rw [← hsame]
    exact SchedulerState.notifyTermination_follows hreceiving ht.sound
  · rw [hsame]
    exact .stay _

theorem follows {s t : State W} {e : Event W} (hs : Invariant s) (h : step e s = .moved t) :
    (effect e).Follows s.outline t.outline := by
  cases e with
  | receiveNextProcess w ranks => exact SchedulerState.updateOutbox_follows h
  | processMessage w source bundle => exact SchedulerState.processMessage_follows hs.sound h
  | poll w ranks => exact SchedulerState.updateOutbox_follows h
  | push w packet functionId => exact SchedulerState.push_follows h
  | send w => exact SchedulerState.send_follows h
  | leaveFunnel w => exact SchedulerState.leaveFunnel_follows h
  | receiveAck w source => exact SchedulerState.receiveAck_follows h
  | processTermination w => exact SchedulerState.processTermination_follows hs.sound h
  | sendFinalSolution w r => exact SchedulerState.sendFinalSolution_follows h
  | centerState w tag =>
    have hsame := SchedulerState.consumeIntFlag_follows h
    change CenterMove s.outline t.outline
    rw [hsame]
    exact .stay _
  | centerAck source => exact centerAck_follows (hs.step _ h) h
  | centerBarrier => exact SchedulerState.centerBarrier_follows h
  | receiveSolutionFrom w tag => exact SchedulerState.receiveSolutionFrom_follows h

end SemiCentralized

namespace Centralized

variable {W : World}

def effect : Event W → Effect W
  | .processMessage w _ _ => .enter w
  | .push w _ _ => .push w
  | .leaveFunnel w => .leave w
  | .processTermination w => .terminate w
  | .sendFinalSolution w r => .report w r
  | .center .scoreProposal _ => .proposal
  | .center _ _ | .clearBuffer _ | .centerBarrier | .receiveSolutionFrom _ _ => .center
  | .consumeCenterFullness _ _ | .send _ | .receiveAck _ _ => .nothing

theorem handle_outline {s t : State W} {m : CenterMessage W} (h : handle m s = .moved t) :
    t.outline = s.outline ∧ s.centerPhase = .receiving := by
  cases m with
  | state w tag =>
    obtain ⟨u, hu, rfl⟩ := Transition.Outcome.map_eq_moved.mp h
    obtain ⟨v, hv, rfl⟩ := lift_moved hu
    have hsame := SchedulerState.consumeIntFlag_follows hv
    cases tag <;> exact ⟨hsame, (SchedulerState.consumeIntFlag_moved hv).1⟩
  | scoreProposal =>
    simp only [handle] at h
    split at h
    · rename_i hphase
      cases h
      exact ⟨rfl, hphase⟩
    · cases h
  | task source bundle =>
    obtain ⟨hphase, _, rfl⟩ := processTaskForCenter_moved h
    exact ⟨rfl, hphase⟩
  | acknowledgement source =>
    obtain ⟨u, hu, rfl⟩ := lift_moved h
    exact ⟨SchedulerState.centerAck_follows hu, (SchedulerState.centerAck_moved hu).1⟩

theorem center_follows {s t : State W} (ht : Invariant t) {m : CenterMessage W}
    {order : List Ticketed} (h : (handle m s).bind (afterMessage order) = .moved t) :
    CenterMove s.outline t.outline := by
  obtain ⟨u, hu, hafter⟩ := Transition.Outcome.bind_eq_moved.mp h
  obtain ⟨hsame, hphase⟩ := handle_outline hu
  have hreceiving : u.centerPhase = .receiving := (congrArg Outline.centerPhase hsame).trans hphase
  simp only [afterMessage] at hafter
  split at hafter
  · cases hafter
    have hexit := SchedulerState.notifyTermination_follows hreceiving ht.sound
    rwa [hsame] at hexit
  · obtain ⟨_, _, rfl⟩ := clearBuffer_moved hafter
    change CenterMove s.outline u.outline
    rw [hsame]
    exact .stay _

theorem follows {s t : State W} {e : Event W} (hs : Invariant s) (h : step e s = .moved t) :
    (effect e).Follows s.outline t.outline := by
  have ht := hs.step e h
  cases e with
  | processMessage w source bundle =>
    obtain ⟨u, hu, rfl⟩ := lift_moved h
    exact SchedulerState.processMessage_follows hs.sound hu
  | consumeCenterFullness w isFull =>
    obtain ⟨u, hu, rfl⟩ := lift_moved h
    exact SchedulerState.updateOutbox_follows hu
  | push w packet functionId =>
    obtain ⟨u, hu, rfl⟩ := lift_moved h
    exact SchedulerState.push_follows hu
  | send w =>
    obtain ⟨u, hu, rfl⟩ := lift_moved h
    exact SchedulerState.send_follows hu
  | leaveFunnel w =>
    obtain ⟨u, hu, rfl⟩ := lift_moved h
    exact SchedulerState.leaveFunnel_follows hu
  | receiveAck w source =>
    obtain ⟨u, hu, rfl⟩ := lift_moved h
    exact SchedulerState.receiveAck_follows hu
  | processTermination w =>
    obtain ⟨u, hu, rfl⟩ := lift_moved h
    exact SchedulerState.processTermination_follows hs.sound hu
  | sendFinalSolution w r =>
    obtain ⟨u, hu, rfl⟩ := lift_moved h
    exact SchedulerState.sendFinalSolution_follows hu
  | center m order => cases m <;> exact center_follows ht h
  | clearBuffer order =>
    obtain ⟨_, _, rfl⟩ := clearBuffer_moved h
    exact .stay _
  | centerBarrier =>
    obtain ⟨u, hu, rfl⟩ := lift_moved h
    exact SchedulerState.centerBarrier_follows hu
  | receiveSolutionFrom w tag =>
    obtain ⟨u, hu, rfl⟩ := lift_moved h
    exact SchedulerState.receiveSolutionFrom_follows hu

end Centralized

namespace Scheduler

variable {W : World}

def semiCentralized (W : World) : Scheduler W where
  State := SemiCentralized.State W
  Event := SemiCentralized.Event W
  machine := SemiCentralized.machine W
  outline s := s.outline
  effect := SemiCentralized.effect
  finalUpdate := true
  handlesProposal := false
  outline_initial := by
    rintro s ⟨seed, rfl⟩
    rfl
  follows s _ _ hs h := SemiCentralized.follows (SemiCentralized.invariant_of_reachable hs) h

def centralized (W : World) : Scheduler W where
  State := Centralized.State W
  Event := Centralized.Event W
  machine := Centralized.machine W
  outline s := s.outline
  effect := Centralized.effect
  finalUpdate := false
  handlesProposal := true
  outline_initial := by
    rintro s ⟨seed, rfl⟩
    rfl
  follows s _ _ hs h := Centralized.follows (Centralized.invariant_of_reachable hs) h

variable (S : Scheduler W)

structure Scored where
  process : S.State
  scores : Scores W

inductive ScoredEvent where
  | process (e : S.Event)
  | worker (w : WorkerRank W) (e : ScoreWorker.Event)
  | consumeScoreFlag (w : WorkerRank W)
  | maybeBroadcastGlobalScore

end Scheduler

/-- The scores after a step of the scheduler. -/
def Effect.apply {W : World} (goal : Goal) : Effect W → Scores W → Scores.Step W
  | .nothing, s => .moved s
  | .enter w, s => s.enterFunnel w
  | .push w, s => if (s.worker w).poolTasks ≠ 0 then .moved s else .blocked
  | .leave w, s => s.leaveFunnel w
  | .terminate w, s => s.drain w
  | .report w r, s => s.sendFinalSolution w r
  | .center, s => if s.handling = none then .moved s else .blocked
  | .proposal, s => s.maybeBroadcastGlobalScore goal

namespace Scores

variable {W : World} {goal : Goal} {init : Score} {s t : Scores W} {e : Effect W}

theorem Sound.apply (h : s.Sound goal init) (ht : e.apply goal s = .moved t) :
    t.Sound goal init := by
  cases e with
  | nothing =>
    cases ht
    exact h
  | enter w => exact h.enterFunnel ht
  | push w =>
    simp only [Effect.apply] at ht
    split at ht <;> cases ht
    exact h
  | leave w => exact h.leaveFunnel ht
  | terminate w => exact h.drain ht
  | report w r => exact h.sendFinalSolution ht
  | center =>
    simp only [Effect.apply] at ht
    split at ht <;> cases ht
    exact h
  | proposal => exact (h.maybeBroadcastGlobalScore ht).1

theorem Settled.apply (h : s.Settled goal) (hsound : s.Sound goal init)
    (ht : e.apply goal s = .moved t) : t.Settled goal := by
  cases e with
  | nothing =>
    cases ht
    exact h
  | enter w => exact h.enterFunnel ht
  | push w =>
    simp only [Effect.apply] at ht
    split at ht <;> cases ht
    exact h
  | leave w => exact h.leaveFunnel ht
  | terminate w => exact h.drain ht
  | report w r =>
    obtain ⟨_, rfl⟩ := sendFinalSolution_moved ht
    exact h
  | center =>
    simp only [Effect.apply] at ht
    split at ht <;> cases ht
    exact h
  | proposal => exact h.maybeBroadcastGlobalScore hsound ht

end Scores

namespace Scheduler

variable {W : World} {S : Scheduler W}

def Scored.outline (s : S.Scored) : Outline W := S.outline s.process

def processStep (goal : Goal) (e : S.Event) (s : S.Scored) : Transition.Outcome Fault S.Scored :=
  (S.machine.step e s.process).bind fun process =>
    ((S.effect e).apply goal s.scores).map fun scores => ⟨process, scores⟩

/-- `SCORE_UPDATE` in the receive loop; everything else a worker does happens in its funnel. -/
def workerStep (goal : Goal) (w : WorkerRank W) (e : ScoreWorker.Event) (s : S.Scored) :
    Transition.Outcome Fault S.Scored :=
  if e = .receiveScore → s.outline.phase w = .receiving then
    (s.scores.workerStep goal S.finalUpdate w e).map fun scores => { s with scores }
  else .blocked

def consumeScoreFlag (w : WorkerRank W) (s : S.Scored) : Transition.Outcome Fault S.Scored :=
  if s.outline.centerPhase = .receiving then
    (s.scores.consumeScoreFlag w).map fun scores => { s with scores }
  else .blocked

def maybeBroadcastGlobalScore (goal : Goal) (s : S.Scored) : Transition.Outcome Fault S.Scored :=
  if S.handlesProposal = false ∧ s.outline.centerPhase = .receiving then
    (s.scores.maybeBroadcastGlobalScore goal).map fun scores => { s with scores }
  else .blocked

def scoredStep (goal : Goal) : S.ScoredEvent → S.Scored → Transition.Outcome Fault S.Scored
  | .process e => processStep goal e
  | .worker w e => workerStep goal w e
  | .consumeScoreFlag w => consumeScoreFlag w
  | .maybeBroadcastGlobalScore => maybeBroadcastGlobalScore goal

variable (S) in
/-- All processes use the same goal and the same kind of score. -/
def scored (model : DataModel) (goal : Goal) (kind : ScoreType) :
    Transition.Machine S.Scored S.ScoredEvent Fault where
  initial s := S.machine.initial s.process ∧ Scores.start W model goal kind = some s.scores
  step := scoredStep goal

end Scheduler

end Gempba
