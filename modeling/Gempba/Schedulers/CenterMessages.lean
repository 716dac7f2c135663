import Gempba.Schedulers.Assignment
import Gempba.Schedulers.Drain
import Gempba.Schedulers.Fullness

/-!
# The messages of the two centers

The second channel carries `NEXT_PROCESS` messages in the semi-centralized
scheduler and fullness notices in the centralized one. The coordinator counts
the former for each worker, the center the latter once for all of them.
-/

namespace Gempba

set_option autoImplicit false

open Transition

variable {W : World}

namespace Coordinator

/-- The messages to one worker among those that a handler sent. -/
def messagesTo (w : WorkerRank W) (sent : List (Assignment W)) : List (List (Rank W)) :=
  sent.filterMap fun m => if m.1 = w.val then some m.2 else none

variable {c d e : Coordinator W} {sent rest : List (Assignment W)}

/-- Each message is counted for its destination. -/
def Counts (c d : Coordinator W) (sent : List (Assignment W)) : Prop :=
  ∀ w : WorkerRank W, d.nextProcessesSent w = c.nextProcessesSent w + (messagesTo w sent).length

theorem Counts.nothing (h : d.nextProcessesSent = c.nextProcessesSent) : Counts c d [] := by
  intro w
  rw [h]
  rfl

theorem Counts.one {p : Rank W} {ranks : List (Rank W)}
    (h : d.nextProcessesSent = (c.sendNextProcess p).nextProcessesSent) :
    Counts c d [(p, ranks)] := by
  intro w
  rw [h]
  obtain rfl | hne := eq_or_ne w.val p
  · simp [sendNextProcess, messagesTo]
  · simp [sendNextProcess, messagesTo, Function.update_of_ne hne, hne.symm]

theorem Counts.append (h : Counts c d sent) (h' : Counts d e rest) :
    Counts c e (sent ++ rest) := by
  intro w
  rw [h' w, h w, messagesTo, messagesTo, messagesTo, List.filterMap_append, List.length_append,
    Nat.add_assoc]

theorem Counts.after (h' : Counts d e sent) (h : d.nextProcessesSent = c.nextProcessesSent) :
    Counts c e sent := by
  intro w
  rw [h' w, h]

theorem bind_eq_ok {α β : Type} {x : Except TreeError α} {f : α → Except TreeError β} {b : β}
    (h : x >>= f = .ok b) : ∃ a, x = .ok a ∧ f a = .ok b := by
  cases x with
  | error e => cases h
  | ok a => exact ⟨a, rfl, h⟩

theorem counts_assign {p r : Rank W} (h : assign p r c = .ok (d, sent)) : Counts c d sent := by
  simp only [assign] at h
  cases hadd : (c.sendNextProcess p).processTree.addNext p r with
  | error x =>
    rw [hadd] at h
    cases h
  | ok tree =>
    rw [hadd] at h
    cases h
    exact .one rfl

theorem releaseIfAssigned_sent {r : Rank W} (h : c.releaseIfAssigned r = .ok d) :
    d.nextProcessesSent = c.nextProcessesSent := by
  simp only [releaseIfAssigned] at h
  split at h
  · cases hrelease : c.processTree.release r with
    | error x =>
      rw [hrelease] at h
      cases h
    | ok tree =>
      rw [hrelease] at h
      cases h
      rfl
  · cases h
    rfl

theorem counts_processRunning {w : WorkerRank W} (h : processRunning w c = .ok (d, sent)) :
    Counts c d sent := by
  simp only [processRunning] at h
  obtain ⟨released, hrelease, h⟩ := bind_eq_ok h
  have hsame := releaseIfAssigned_sent hrelease
  split at h
  · cases h
    exact .nothing hsame
  · split at h
    · exact (counts_assign h).after hsame
    · cases h
      exact .nothing hsame

theorem counts_processAvailable {w : WorkerRank W} {offset : ℕ}
    (h : processAvailable w offset c = .ok (d, sent)) : Counts c d sent := by
  simp only [processAvailable] at h
  obtain ⟨released, hrelease, h⟩ := bind_eq_ok h
  have hsame := releaseIfAssigned_sent hrelease
  split at h
  · exact (counts_assign h).after hsame
  · cases h
    exact .nothing hsame

theorem counts_handle {e : Event W} (h : handle e c = .ok (d, sent)) : Counts c d sent := by
  cases e with
  | running w => exact counts_processRunning h
  | available w offset => exact counts_processAvailable h

theorem counts_broadcastTo {p : Rank W} (h : c.broadcastTo p = .ok (d, sent)) :
    Counts c d sent := by
  simp only [broadcastTo] at h
  split at h
  · cases h
  · split at h
    · cases h
      exact .nothing rfl
    · cases h
      exact .one rfl

theorem counts_broadcastToAll {ps : List (WorkerRank W)}
    (h : broadcastToAll ps c = .ok (d, sent)) : Counts c d sent := by
  induction ps generalizing c sent with
  | nil =>
    cases h
    exact .nothing rfl
  | cons p ps ih =>
    obtain ⟨⟨first, one⟩, hone, h⟩ := bind_eq_ok h
    obtain ⟨⟨last, others⟩, hothers, h⟩ := bind_eq_ok h
    cases h
    exact (counts_broadcastTo hone).append (ih hothers)

theorem counts_start (h : start W = .ok (c, sent)) (w : WorkerRank W) :
    c.nextProcessesSent w = (messagesTo w sent).length := by
  obtain ⟨tree, _, h⟩ := bind_eq_ok h
  obtain ⟨⟨broadcast, all⟩, hbroadcast, h⟩ := bind_eq_ok h
  cases h
  have hcounts := counts_broadcastToAll hbroadcast w
  rwa [show (Coordinator.nextProcessesSent { init W with processTree := tree } w) = 0 from rfl,
    Nat.zero_add] at hcounts

end Coordinator

namespace SemiCentralized

/-- The coordinator answers a state notice, with a random offset for its search. -/
def assignments (offset : Fin (W.size + 1)) (e : Event W) (c : Coordinator W) :
    Except TreeError (Coordinator W × (WorkerRank W → List (List (Rank W)))) :=
  match e with
  | .centerState w tag =>
    match Coordinator.handle (Assignment.report w offset tag) c with
    | .ok (c, sent) => .ok (c, fun w => Coordinator.messagesTo w sent)
    | .error x => .error x
  | _ => .ok (c, fun _ => [])

def receivesNextProcess : Event W → Option (WorkerRank W)
  | .receiveNextProcess w _ => some w
  | .poll w (some _) => some w
  | _ => none

/-- The ranks that the worker takes are those of the message. -/
def expectsNextProcess : Event W → List (Rank W) → Bool
  | .receiveNextProcess _ ranks, m => Assignment.asWorkers m = ranks
  | .poll _ (some ranks), m => Assignment.asWorkers m = ranks
  | _, _ => false

theorem assignments_sent {offset : Fin (W.size + 1)} {e : Event W} {c d : Coordinator W}
    {ms : WorkerRank W → List (List (Rank W))} (h : assignments offset e c = .ok (d, ms))
    (w : WorkerRank W) : d.nextProcessesSent w = c.nextProcessesSent w + (ms w).length := by
  cases e with
  | centerState v tag =>
    simp only [assignments] at h
    split at h
    · rename_i sent hhandle
      cases h
      exact Coordinator.counts_handle hhandle w
    · cases h
  | _ =>
    cases h
    rfl

theorem assignments_exited {offset : Fin (W.size + 1)} {e : Event W} {s t : State W}
    {c d : Coordinator W} {ms : WorkerRank W → List (List (Rank W))} (hst : step e s = .moved t)
    (hexit : s.centerPhase ≠ .receiving) (h : assignments offset e c = .ok (d, ms))
    (w : WorkerRank W) : ms w = [] := by
  cases e with
  | centerState v tag => exact absurd (SchedulerState.consumeIntFlag_moved hst).1 hexit
  | _ =>
    cases h
    rfl

theorem receivesNextProcess_phase {e : Event W} {s t : State W} {w : WorkerRank W}
    (hst : step e s = .moved t) (h : receivesNextProcess e = some w) :
    ¬ s.outline.Terminated w := by
  cases e with
  | receiveNextProcess v ranks =>
    cases h
    have hphase := List.mem_singleton.mp (SchedulerState.updateOutbox_moved hst).1
    simp [Outline.Terminated, SchedulerState.outline, hphase]
  | poll v ranks =>
    cases ranks with
    | none => cases h
    | some ranks =>
      cases h
      have hphase := List.mem_singleton.mp (SchedulerState.updateOutbox_moved hst).1
      simp [Outline.Terminated, SchedulerState.outline, hphase]
  | _ => cases h

/-- The `NEXT_PROCESS` messages of the coordinator. -/
def nextProcessMessages (W : World) : CenterChannel (Scheduler.semiCentralized W) where
  State := Coordinator W
  Message := List (Rank W)
  Reading := Fin (W.size + 1)
  start c ms := ∃ sent, Coordinator.start W = .ok (c, sent) ∧
    ms = fun w => Coordinator.messagesTo w sent
  handle offset e _ _ c := assignments offset e c
  sent c w := c.nextProcessesSent w
  receives := receivesNextProcess
  expected := expectsNextProcess
  start_sent := by
    rintro c _ ⟨sent, hstart, rfl⟩ w
    exact Coordinator.counts_start hstart w
  handle_sent _ _ _ _ _ _ _ h := assignments_sent h
  handle_exited _ _ _ _ _ _ _ hst hexit h := assignments_exited hst hexit h
  handle_terminate _ e _ _ _ _ h := by
    cases e with
    | processTermination w => rfl
    | _ => cases h
  receives_phase _ _ _ _ := receivesNextProcess_phase
  receives_effect e w h := by
    cases e with
    | receiveNextProcess v ranks => rfl
    | poll v ranks => rfl
    | _ => cases h

theorem obliging (W : World) : CenterChannel.Obliging (Scheduler.semiCentralized W) := by
  intro e s f hs hf
  rcases (invariant_of_reachable hs).raised_cases hf with
    ⟨_, _, _, rfl, hpush⟩ | ⟨_, rfl, hsend⟩
  · refine ⟨?_, nofun⟩
    rcases SemiOutbox.forcePush_eq_error hpush with rfl | rfl | ⟨_, rfl⟩ <;> simp
  · refine ⟨?_, nofun⟩
    rcases SemiOutbox.sendSection_eq_error hsend with rfl | rfl | rfl | ⟨_, rfl⟩ <;> simp

end SemiCentralized

namespace Centralized

/-- The notices of the center, as a message to each worker. -/
def notices (r : Fullness.Reading) (e : Event W) (s t : State W) (f : Fullness) :
    Fullness × (WorkerRank W → List FullnessTag) :=
  ((fullness r e s t f).1, fun _ => (fullness r e s t f).2.toList)

def receivesFullness : Event W → Option (WorkerRank W)
  | .consumeCenterFullness w _ => some w
  | _ => none

/-- The flag that the worker sets is the tag of the message. -/
def expectsFullness : Event W → FullnessTag → Bool
  | .consumeCenterFullness _ isFull, m => isFull = decide (m = .CENTER_IS_FULL)
  | _, _ => false

theorem monitor_sent (worldSize queueSize memory : ℕ) (now : ℚ) (f : Fullness) :
    (f.monitorAndNotifyCenterStatus worldSize queueSize memory now).1.fullnessNoticesSent =
      f.fullnessNoticesSent +
        (f.monitorAndNotifyCenterStatus worldSize queueSize memory now).2.toList.length := by
  rcases Fullness.monitor_cases worldSize queueSize memory now f with
    hnone | ⟨g, tag, hsome, hcount, _⟩
  · rw [hnone]
    rfl
  · rw [hsome]
    exact hcount

theorem fullness_sent (r : Fullness.Reading) (e : Event W) (s t : State W) (f : Fullness) :
    (fullness r e s t f).1.fullnessNoticesSent =
      f.fullnessNoticesSent + (fullness r e s t f).2.toList.length := by
  cases e with
  | center m order =>
    have htask : ∀ g : Fullness, g.fullnessNoticesSent = f.fullnessNoticesSent →
        (if t.centerPhase = .receiving then
          g.monitorAndNotifyCenterStatus W.size t.queue.card r.memory r.now
          else (g, none)).1.fullnessNoticesSent = f.fullnessNoticesSent +
        (if t.centerPhase = .receiving then
          g.monitorAndNotifyCenterStatus W.size t.queue.card r.memory r.now
          else (g, none)).2.toList.length := by
      intro g hg
      split
      · rw [monitor_sent, hg]
      · exact hg
    cases m with
    | task source bundle => exact htask _ (Fullness.processTaskForCenter_sent _ _ _ _)
    | _ => exact htask f rfl
  | clearBuffer order => exact monitor_sent _ _ _ _ _
  | _ => rfl

theorem fullness_exited {r : Fullness.Reading} {e : Event W} {s t : State W} {f : Fullness}
    (hst : step e s = .moved t) (hexit : s.centerPhase ≠ .receiving) :
    (fullness r e s t f).2 = none := by
  cases e with
  | center m order =>
    obtain ⟨u, hu, _⟩ := Outcome.bind_eq_moved.mp hst
    exact absurd (handle_outline hu).2 hexit
  | clearBuffer order => exact absurd (clearBuffer_moved hst).1 hexit
  | _ => rfl

/-- The fullness notices of the center. -/
def fullnessMessages (W : World) : CenterChannel (Scheduler.centralized W) where
  State := Fullness
  Message := FullnessTag
  Reading := Fullness.Reading
  start f ms := f = .initial ∧ ms = fun _ => []
  handle r e s t f := .ok (notices r e s t f)
  sent f _ := f.fullnessNoticesSent
  receives := receivesFullness
  expected := expectsFullness
  start_sent := by
    rintro _ _ ⟨rfl, rfl⟩ w
    rfl
  handle_sent := by
    rintro r e s t f _ _ h w
    cases h
    exact fullness_sent r e s t f
  handle_exited := by
    rintro r e s t f _ _ hst hexit h w
    cases h
    simp only [fullness_exited hst hexit, Option.toList_none]
  handle_terminate _ e _ _ _ _ h := by
    cases e with
    | processTermination w => rfl
    | center m order => cases m <;> cases h
    | _ => cases h
  receives_phase e s t w hst h := by
    cases e with
    | consumeCenterFullness v isFull =>
      cases h
      obtain ⟨u, hu, _⟩ := lift_moved hst
      have hphase := (SchedulerState.updateOutbox_moved hu).1
      rintro (hterminated | hterminated)
      all_goals
        simp only [Scheduler.centralized, SchedulerState.outline] at hterminated
        simp [hterminated] at hphase
    | _ => cases h
  receives_effect e w h := by
    cases e with
    | consumeCenterFullness v isFull => rfl
    | _ => cases h

theorem handle_not_raised {s : State W} (h : s.toSchedulerState.Sound) {m : CenterMessage W}
    {f : Fault} : handle m s ≠ .raised f := by
  intro hf
  cases m with
  | state w tag =>
    have hlift := lift_raised (Outcome.map_eq_raised.mp hf)
    simp only [SchedulerState.consumeIntFlag] at hlift
    split at hlift <;> cases hlift
  | scoreProposal =>
    simp only [handle] at hf
    split at hf <;> cases hf
  | task source bundle =>
    simp only [handle, processTaskForCenter] at hf
    split at hf <;> cases hf
  | acknowledgement source => exact h.centerAck_not_raised (lift_raised hf)

theorem obliging (W : World) : CenterChannel.Obliging (Scheduler.centralized W) := by
  intro e s f hs hf
  have hsound := (invariant_of_reachable hs).sound
  cases e with
  | push w packet functionId =>
    refine ⟨?_, nofun⟩
    rcases CenterOutbox.forcePush_eq_error (SchedulerState.push_raised (lift_raised hf)) with
      rfl | ⟨_, rfl⟩ <;> simp
  | send w =>
    refine ⟨?_, nofun⟩
    have hsend := SchedulerState.send_raised (lift_raised hf)
    simp only [sendSection, Option.map_eq_some_iff] at hsend
    obtain ⟨sent, hsent, herror⟩ := hsend
    cases sent with
    | ok sent => simp [Except.map] at herror
    | error x =>
      cases herror
      rw [(CenterOutbox.sendSection_eq_error hsent).2]
      simp
  | receiveAck w source => exact absurd (lift_raised hf) hsound.receiveAck_not_raised
  | processTermination w => exact absurd (lift_raised hf) hsound.processTermination_not_raised
  | receiveSolutionFrom w tag => exact absurd (lift_raised hf) hsound.receiveSolutionFrom_not_raised
  | center m order =>
    obtain hhandle | ⟨u, _, hafter⟩ := Outcome.bind_eq_raised.mp hf
    · exact absurd hhandle (handle_not_raised hsound)
    · simp only [afterMessage, clearBuffer] at hafter
      split at hafter
      · cases hafter
      · split at hafter <;> cases hafter
  | clearBuffer order =>
    simp only [Scheduler.centralized, machine, step, clearBuffer] at hf
    split at hf <;> cases hf
  | processMessage w source bundle =>
    have hlift := lift_raised hf
    simp only [SchedulerState.processMessage] at hlift
    split at hlift <;> cases hlift
  | consumeCenterFullness w isFull =>
    have hlift := lift_raised hf
    simp only [SchedulerState.updateOutbox] at hlift
    split at hlift <;> cases hlift
  | leaveFunnel w =>
    have hlift := lift_raised hf
    simp only [SchedulerState.leaveFunnel] at hlift
    split at hlift <;> cases hlift
  | sendFinalSolution w report =>
    have hlift := lift_raised hf
    simp only [SchedulerState.sendFinalSolution] at hlift
    split at hlift <;> cases hlift
  | centerBarrier =>
    have hlift := lift_raised hf
    simp only [SchedulerState.centerBarrier] at hlift
    split at hlift <;> cases hlift

end Centralized

/-- The receipt of `TERMINATION`, in every run of either scheduler. -/
theorem center_messages_drained (W : World) (model : DataModel) (goal : Goal) (kind : ScoreType) :
    (∀ s, ((SemiCentralized.nextProcessMessages W).machine model goal kind).Reachable s →
      s.DrainsAtTermination goal) ∧
    ∀ s, ((Centralized.fullnessMessages W).machine model goal kind).Reachable s →
      s.DrainsAtTermination goal :=
  ⟨fun _ h => CenterChannel.drains_of_reachable (SemiCentralized.obliging W) h,
    fun _ h => CenterChannel.drains_of_reachable (Centralized.obliging W) h⟩

theorem two_le_three : 2 ≤ 3 := by decide

def twoWorkers : World := ⟨3, two_le_three⟩

theorem start_twoWorkers : (Coordinator.start twoWorkers).toOption.isSome = true := by decide

theorem scores_twoWorkers : (Scores.start twoWorkers .LP64 .MAXIMISE .I32).isSome = true := by
  decide

def semiBefore : (SemiCentralized.nextProcessMessages twoWorkers).Coupled :=
  let started := (Coordinator.start twoWorkers).toOption.get start_twoWorkers
  { scored := Scheduler.beforeRun (SemiCentralized.sendSeed ⟨[7], 3⟩) _ _ _ scores_twoWorkers
    center := started.1
    channel := fun w => ⟨Coordinator.messagesTo w started.2, 0⟩
    counts := fun _ => (0, 0) }

/-- The first worker improves its score and takes no next process; the center then exits. -/
def semiExit : List (CenterChannel.Event (SemiCentralized.nextProcessMessages twoWorkers)) :=
  let w := World.firstWorker twoWorkers
  let c := World.center twoWorkers
  let offset : Fin 4 := 0
  [.process (SemiCentralized.Event.processMessage w c ⟨[7], 3⟩) offset, .worker w (.poll false),
    .worker w .compare, .worker w (.offer (.makeInt 5) [9]), .worker w .finishTask,
    .worker w .finishLoop, .worker w .compare, .consumeScoreFlag w, .maybeBroadcastGlobalScore,
    .process (SemiCentralized.Event.leaveFunnel w) offset,
    .process (SemiCentralized.Event.centerAck w) offset]

theorem semiExit_runs :
    (((SemiCentralized.nextProcessMessages twoWorkers).machine .LP64 .MAXIMISE .I32).run
      semiExit semiBefore).isSome = true := by
  decide

def centralizedBefore : (Centralized.fullnessMessages .pair).Coupled where
  scored := Scheduler.beforeRun (Centralized.sendSeed ⟨[7], 3⟩) _ _ _ Scheduler.scores_pair
  center := .initial
  channel _ := ⟨[], 0⟩
  counts _ := (0, 0)

/-- The worker improves its score while the memory of the center is full, and the center exits. -/
def centralizedExit : List (CenterChannel.Event (Centralized.fullnessMessages .pair)) :=
  let w := World.firstWorker World.pair
  let c := World.center World.pair
  let r : Fullness.Reading := ⟨0, 20000, 1⟩
  [.process (Centralized.Event.processMessage w c ⟨[7], 3⟩) r, .worker w (.poll false),
    .worker w (.offer (.makeInt 5) [9]), .worker w .compare, .worker w .finishTask,
    .consumeScoreFlag w, .worker w .finishLoop, .process (Centralized.Event.leaveFunnel w) r,
    .process (Centralized.Event.center .scoreProposal []) r,
    .process (Centralized.Event.center (.acknowledgement w) []) r]

theorem centralizedExit_runs :
    (((Centralized.fullnessMessages .pair).machine .LP64 .MAXIMISE .I32).run centralizedExit
      centralizedBefore).isSome = true := by
  decide

theorem ok_get {ε α : Type} {x : Except ε α} (h : x.toOption.isSome = true) :
    x = .ok (x.toOption.get h) := by
  cases x with
  | error e => cases h
  | ok a => rfl

theorem initial_semiBefore :
    ((SemiCentralized.nextProcessMessages twoWorkers).machine .LP64 .MAXIMISE .I32).initial
      semiBefore := by
  have hprocess : (SemiCentralized.machine twoWorkers).initial
      (SemiCentralized.sendSeed ⟨[7], 3⟩) := ⟨_, rfl⟩
  refine ⟨Scheduler.initial_beforeRun (S := .semiCentralized twoWorkers) hprocess _, _,
    ⟨_, ok_get start_twoWorkers, rfl⟩, fun _ => rfl⟩

theorem initial_centralizedBefore :
    ((Centralized.fullnessMessages .pair).machine .LP64 .MAXIMISE .I32).initial
      centralizedBefore := by
  have hprocess : (Centralized.machine .pair).initial (Centralized.sendSeed ⟨[7], 3⟩) := ⟨_, rfl⟩
  exact ⟨Scheduler.initial_beforeRun (S := .centralized .pair) hprocess _, _, ⟨rfl, rfl⟩,
    fun _ => rfl⟩

/-- One update and one message of the second channel are in flight at the exit. -/
theorem center_messages_drained_exit :
    ((((SemiCentralized.nextProcessMessages twoWorkers).machine .LP64 .MAXIMISE .I32).run
      semiExit semiBefore).get semiExit_runs).DrainsAtTermination .MAXIMISE ∧
    ((((Centralized.fullnessMessages .pair).machine .LP64 .MAXIMISE .I32).run centralizedExit
      centralizedBefore).get centralizedExit_runs).DrainsAtTermination .MAXIMISE := by
  constructor
  · refine (center_messages_drained twoWorkers .LP64 .MAXIMISE .I32).1 _ ?_
    have hstart : ((SemiCentralized.nextProcessMessages twoWorkers).machine
        .LP64 .MAXIMISE .I32).Reachable semiBefore := .start initial_semiBefore
    exact hstart.run (Option.some_get _).symm
  · refine (center_messages_drained .pair .LP64 .MAXIMISE .I32).2 _ ?_
    have hstart : ((Centralized.fullnessMessages .pair).machine
        .LP64 .MAXIMISE .I32).Reachable centralizedBefore := .start initial_centralizedBefore
    exact hstart.run (Option.some_get _).symm

end Gempba
