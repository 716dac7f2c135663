import Gempba.Schedulers.Centralized
import Gempba.Schedulers.ScoreInvariant
import Gempba.Schedulers.SemiCentralized

/-!
# The outline of a run

What the exchange of scores sees of either scheduler: the phases of the
workers and of the center, and the reports. A step of a scheduler has an
effect on the scores; the outline says what such a step may do.
-/

namespace Gempba

set_option autoImplicit false

variable {W : World}

structure Outline (W : World) where
  phase : WorkerRank W → WorkerPhase
  centerPhase : CenterPhase W
  reports : Multiset (WorkerRank W × Report)
  bestResults : Rank W → Result

namespace Outline

def setPhase (w : WorkerRank W) (phase : WorkerPhase) (o : Outline W) : Outline W :=
  { o with phase := Function.update o.phase w phase }

/-- The outline of a run that has just started. -/
def start (W : World) : Outline W := ⟨fun _ => .receiving, .receiving, 0, fun _ => Result.EMPTY⟩

/-- The center hears the report of `w`. -/
def hear (w : WorkerRank W) (r : Report) (o : Outline W) : Outline W :=
  { o with
    reports := o.reports.erase (w, r)
    bestResults := match r with
      | some result => Function.update o.bestResults w result
      | none => o.bestResults
    centerPhase := nextPhase w }

end Outline

/-- What a step of a scheduler does to the scores. -/
inductive Effect (W : World) where
  | nothing
  | enter (w : WorkerRank W)
  | push (w : WorkerRank W)
  | leave (w : WorkerRank W)
  | terminate (w : WorkerRank W)
  | report (w : WorkerRank W) (r : Report)
  | center
  | proposal

/-- What the center may do in a step. -/
inductive CenterMove : Outline W → Outline W → Prop where
  | stay (o : Outline W) : CenterMove o o
  | exit (o : Outline W) (hphase : o.centerPhase = .receiving)
      (hidle : ∀ w, o.phase w ≠ .executing) : CenterMove o { o with centerPhase := .barrier }
  | collect (o : Outline W) (hphase : o.centerPhase = .barrier) :
      CenterMove o { o with centerPhase := .collecting W.firstWorker }
  | hear (o : Outline W) (w : WorkerRank W) (r : Report) (hphase : o.centerPhase = .collecting w)
      (hmem : (w, r) ∈ o.reports) : CenterMove o (o.hear w r)

/-- The outline before and after a step with the given effect. -/
def Effect.Follows : Effect W → Outline W → Outline W → Prop
  | .nothing, o, o' => o' = o
  | .push _, o, o' => o' = o
  | .enter w, o, o' =>
    o.phase w = .receiving ∧ o.centerPhase = .receiving ∧ o' = o.setPhase w .executing
  | .leave w, o, o' => o.phase w = .executing ∧ o' = o.setPhase w .receiving
  | .terminate w, o, o' =>
    o.phase w = .receiving ∧ o.centerPhase ≠ .receiving ∧ o' = o.setPhase w .barrier
  | .report w r, o, o' =>
    o.phase w = .barrier ∧ o' = { o.setPhase w .reported with reports := (w, r) ::ₘ o.reports }
  | .center, o, o' => CenterMove o o'
  | .proposal, o, o' => CenterMove o o'

namespace SchedulerState

variable {Ω : Type} {s t : SchedulerState W Ω}

def outline (s : SchedulerState W Ω) : Outline W :=
  ⟨fun w => (s.worker w).phase, s.centerPhase, s.reports, s.bestResults⟩

theorem outline_setWorker (w : WorkerRank W) (v : Worker Ω) (s : SchedulerState W Ω) :
    (s.setWorker w v).outline = s.outline.setPhase w v.phase := by
  simp only [outline, setWorker, Outline.setPhase, Outline.mk.injEq, and_true]
  funext x
  by_cases hx : x = w
  · subst hx
    simp
  · simp [Function.update_of_ne hx]

theorem outline_setOutbox (w : WorkerRank W) (outbox : Ω) (s : SchedulerState W Ω) :
    (s.setWorker w { s.worker w with outbox }).outline = s.outline := by
  rw [outline_setWorker, Outline.setPhase]
  simp [outline, Function.update_eq_self]

theorem push_follows {tryOpen : Ω → Bool} {forcePush : Ω → Except Fault Ω} {w : WorkerRank W}
    (h : push tryOpen forcePush w s = .moved t) :
    (Effect.push w).Follows s.outline t.outline := by
  obtain ⟨_, _, outbox, _, rfl⟩ := push_moved h
  exact outline_setOutbox w outbox s

theorem send_follows {sendSection : Ω → Option (Except Fault (Rank W × TaskBundle × Ω))}
    {w : WorkerRank W} (h : send sendSection w s = .moved t) :
    (Effect.nothing (W := W)).Follows s.outline t.outline := by
  obtain ⟨_, _, _, outbox, _, rfl⟩ := send_moved h
  exact outline_setOutbox w outbox (s.mapNetwork _)

theorem updateOutbox_follows {phases : List WorkerPhase} {f : Ω → Ω} {w : WorkerRank W}
    (h : updateOutbox phases f w s = .moved t) :
    (Effect.nothing (W := W)).Follows s.outline t.outline := by
  obtain ⟨_, rfl⟩ := updateOutbox_moved h
  exact outline_setOutbox w _ s

theorem receiveAck_follows {w : WorkerRank W} {source : Rank W}
    (h : receiveAck w source s = .moved t) :
    (Effect.nothing (W := W)).Follows s.outline t.outline := by
  obtain ⟨_, _, _, _, rfl⟩ := receiveAck_moved h
  rfl

theorem sendFinalSolution_follows {w : WorkerRank W} {report : Report}
    (h : sendFinalSolution w report s = .moved t) :
    (Effect.report w report).Follows s.outline t.outline := by
  obtain ⟨hphase, _, rfl⟩ := sendFinalSolution_moved h
  exact ⟨hphase, outline_setWorker w _ _⟩

theorem consumeIntFlag_follows {w : WorkerRank W} {tag : StateTag}
    (h : consumeIntFlag w tag s = .moved t) : t.outline = s.outline := by
  obtain ⟨_, _, rfl⟩ := consumeIntFlag_moved h
  rfl

theorem centerAck_follows {source : Rank W} (h : centerAck source s = .moved t) :
    t.outline = s.outline := by
  obtain ⟨_, _, _, _, rfl⟩ := centerAck_moved h
  rfl

theorem centerBarrier_follows (h : centerBarrier s = .moved t) :
    CenterMove s.outline t.outline := by
  obtain ⟨hphase, _, rfl⟩ := centerBarrier_moved h
  exact .collect s.outline hphase

theorem receiveSolutionFrom_follows {w : WorkerRank W} {tag : ProbedTag}
    (h : receiveSolutionFrom w tag s = .moved t) : CenterMove s.outline t.outline := by
  obtain ⟨hphase, ⟨_, _, _, rfl⟩ | ⟨report, _, hmem, rfl⟩⟩ := receiveSolutionFrom_moved h
  · exact .stay _
  · exact .hear s.outline w report hphase hmem

variable [Outbox Ω]

theorem processMessage_follows (hs : s.Sound) {w : WorkerRank W} {source : Rank W}
    {bundle : TaskBundle} (h : processMessage w source bundle s = .moved t) :
    (Effect.enter w).Follows s.outline t.outline := by
  obtain ⟨hphase, hmem, rfl⟩ := processMessage_moved h
  refine ⟨hphase, ?_, outline_setWorker w _ _⟩
  by_contra hexit
  rw [(hs.quiet hexit).no_task] at hmem
  exact absurd hmem (Multiset.notMem_zero _)

theorem leaveFunnel_follows {w : WorkerRank W} (h : leaveFunnel w s = .moved t) :
    (Effect.leave w).Follows s.outline t.outline := by
  obtain ⟨hphase, _, rfl⟩ := leaveFunnel_moved h
  exact ⟨hphase, outline_setWorker w _ _⟩

theorem processTermination_follows (hs : s.Sound) {w : WorkerRank W}
    (h : processTermination w s = .moved t) :
    (Effect.terminate w).Follows s.outline t.outline := by
  obtain ⟨hphase, hmem, rfl⟩ := processTermination_moved h
  refine ⟨hphase, fun hreceiving => ?_, outline_setWorker w _ _⟩
  rw [hs.notified hreceiving] at hmem
  exact absurd hmem (Multiset.notMem_zero _)

theorem notifyTermination_follows (hphase : s.centerPhase = .receiving)
    (ht : (s.notifyTermination).Sound) : CenterMove s.outline s.notifyTermination.outline := by
  have hquiet := ht.quiet (by simp [notifyTermination])
  exact .exit s.outline hphase hquiet.not_executing

end SchedulerState

end Gempba
