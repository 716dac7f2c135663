import Gempba.Schedulers.Protocol

/-!
# The invariant of the shared protocol

Each handler keeps the detectors, the tasks and acknowledgements in flight and
the phases of the workers in step. Once the center has left its receive loop
nothing of the computation is left, and no handler of the protocol throws.
-/

namespace Gempba.SchedulerState

set_option autoImplicit false

variable {W : World} {Ω : Type} [Outbox Ω] {s t : SchedulerState W Ω}

/-- Nothing of the computation is left in any process or channel. -/
structure Quiet (s : SchedulerState W Ω) : Prop where
  no_task : s.network.tasks = 0
  no_ack : s.network.acks = 0
  not_executing : ∀ w, (s.worker w).phase ≠ .executing
  no_outgoing : ∀ w, s.outgoing w = .initial
  deficit_zero : ∀ r, (s.network.detector r).deficit = 0
  parent_none : ∀ r, (s.network.detector r).parent = none

/-- What every handler keeps, whatever the rest of the center does. -/
structure Sound (s : SchedulerState W Ω) : Prop where
  network : s.network.Sound s.executing
  prompt : s.network.Prompt s.executing
  outbox : ∀ w, (s.outgoing w).Consistent
  idle : ∀ w, (s.worker w).phase ≠ .executing → (s.outgoing w).tasksBundleQueue = []
  notified : s.centerPhase = .receiving → s.terminations = 0
  exited : s.centerPhase ≠ .receiving → s.deficit = 0

theorem sound_sendSeed {outbox : Ω} (hout : Outbox.outgoing outbox = .initial)
    (seed : TaskBundle) : Sound (sendSeed outbox seed : SchedulerState W Ω) where
  network := by
    refine TaskNetwork.Sound.sendTask (TaskNetwork.initial_sound fun r _ hr => ?_) _ (Or.inl rfl)
    obtain ⟨_, hphase⟩ := hr
    cases hphase
  prompt := by
    apply TaskNetwork.Prompt.sendTask
    intro r _ hp
    simp [TaskNetwork.initial, TerminationDetector.make] at hp
  outbox w := by
    simpa [outgoing, sendSeed, hout] using Outgoing.consistent_initial
  idle w _ := by
    simp [outgoing, sendSeed, hout, Outgoing.initial]
  notified _ := rfl
  exited h := absurd rfl h

namespace Sound

/-- A worker's phase and outbox may change as long as it keeps executing or not executing. -/
theorem setWorker (h : Sound s) {w : WorkerRank W} {v : Worker Ω}
    (hphase : v.phase = .executing ↔ (s.worker w).phase = .executing)
    (hout : (Outbox.outgoing v.outbox).Consistent)
    (hidle : v.phase ≠ .executing → (Outbox.outgoing v.outbox).tasksBundleQueue = []) :
    Sound (s.setWorker w v) where
  network := (executing_setWorker_eq s w v hphase).symm ▸ h.network
  prompt := (executing_setWorker_eq s w v hphase).symm ▸ h.prompt
  outbox := forall_setWorker (P := fun v => (Outbox.outgoing v.outbox).Consistent) h.outbox hout
  idle := forall_setWorker (P := fun v =>
    v.phase ≠ .executing → (Outbox.outgoing v.outbox).tasksBundleQueue = []) h.idle hidle
  notified := h.notified
  exited := h.exited

theorem withNetwork (h : Sound s) {n : TaskNetwork W} (hn : n.Sound s.executing)
    (hp : n.Prompt s.executing)
    (hd : s.centerPhase ≠ .receiving → (n.detector W.center).deficit = 0) :
    Sound { s with network := n } :=
  ⟨hn, hp, h.outbox, h.idle, h.notified, hd⟩

/-- No handler of the protocol reads the notices or the reports. -/
theorem withMessages (h : Sound s) (notices : Multiset (WorkerRank W × StateTag))
    (reports : Multiset (WorkerRank W × Report)) : Sound { s with notices, reports } :=
  ⟨h.network, h.prompt, h.outbox, h.idle, h.notified, h.exited⟩

theorem processMessage (h : Sound s) {w : WorkerRank W} {source : Rank W} {bundle : TaskBundle}
    (ht : processMessage w source bundle s = .moved t) : Sound t := by
  obtain ⟨_, hmem, rfl⟩ := processMessage_moved ht
  have hcenter := processMessage_center ht
  refine ⟨?_, ?_, ?_, ?_, h.notified, fun hc => hcenter.deficit.trans (h.exited hc)⟩
  · refine h.network.receiveTask hmem fun r hr => ?_
    by_cases hrw : r = w
    · exact Or.inr hrw
    · exact Or.inl ((executing_setWorker_ne _ w _ hrw).mp hr)
  · refine h.prompt.receiveTask (fun r hrw hr => ?_) (Or.inl ?_)
    · exact (executing_setWorker_ne _ w _ hrw).mpr hr
    · exact (executing_setWorker_self _ w _).mpr rfl
  · exact forall_setWorker (P := fun v => (Outbox.outgoing v.outbox).Consistent) h.outbox
      (h.outbox w)
  · exact forall_setWorker (P := fun v =>
      v.phase ≠ .executing → (Outbox.outgoing v.outbox).tasksBundleQueue = []) h.idle
      (fun hexec => absurd rfl hexec)

theorem push (h : Sound s) {tryOpen : Ω → Bool} {forcePush : Ω → Except Fault Ω}
    (hpush : ∀ o o', forcePush o = .ok o' → (Outbox.outgoing o').Consistent) {w : WorkerRank W}
    (ht : push tryOpen forcePush w s = .moved t) : Sound t := by
  obtain ⟨hphase, _, outbox, hok, rfl⟩ := push_moved ht
  exact h.setWorker Iff.rfl (hpush _ _ hok) (fun hne => absurd hphase hne)

theorem send (h : Sound s) {sendSection : Ω → Option (Except Fault (Rank W × TaskBundle × Ω))}
    (hsection : ∀ o destination bundle o',
      sendSection o = some (.ok (destination, bundle, o')) → Outbox.outgoing o' = .initial)
    {w : WorkerRank W} (ht : send sendSection w s = .moved t) : Sound t := by
  obtain ⟨hphase, destination, bundle, outbox, hok, rfl⟩ := send_moved ht
  have hengaged := h.network.engaged ((executing_iff s w).mpr hphase)
  have hsent : Sound (s.mapNetwork (·.sendTask ⟨w, destination, bundle⟩)) := by
    refine h.withNetwork (h.network.sendTask _ hengaged) (h.prompt.sendTask _) fun hc => ?_
    exact (send_center ht).deficit.trans (h.exited hc)
  refine hsent.setWorker Iff.rfl ?_ (fun hne => absurd hphase hne)
  rw [hsection _ _ _ _ hok]
  exact Outgoing.consistent_initial

theorem updateOutbox (h : Sound s) {phases : List WorkerPhase} {f : Ω → Ω}
    (hf : ∀ o, Outbox.outgoing (f o) = Outbox.outgoing o) {w : WorkerRank W}
    (ht : updateOutbox phases f w s = .moved t) : Sound t := by
  obtain ⟨_, rfl⟩ := updateOutbox_moved ht
  refine h.setWorker Iff.rfl ?_ ?_
  · rw [hf]
    exact h.outbox w
  · rw [hf]
    exact h.idle w

theorem leaveFunnel (h : Sound s) {w : WorkerRank W} (ht : leaveFunnel w s = .moved t) :
    Sound t := by
  obtain ⟨_, hqueue, rfl⟩ := leaveFunnel_moved ht
  -- The worker stops executing first; then it may release its parent.
  have hstopped : ¬ executing (SchedulerState.setWorker w { s.worker w with phase := .receiving }
      ((s.notify w .AVAILABLE_STATE).mapNetwork (·.releaseParentIfPassive w))) w := by
    rw [executing_setWorker_self]
    exact WorkerPhase.noConfusion
  refine ⟨?_, ?_, ?_, ?_, h.notified,
    fun hc => (leaveFunnel_center ht).deficit.trans (h.exited hc)⟩
  · refine TaskNetwork.Sound.releaseParentIfPassive
      (h.network.deactivate fun r hr => ?_) hstopped
    by_cases hrw : r = w
    · subst hrw
      exact absurd hr hstopped
    · exact (executing_setWorker_ne _ w _ hrw).mp hr
  · refine TaskNetwork.Prompt.releaseParentIfPassive fun r hrw hr => h.prompt r fun hexec => hr ?_
    exact (executing_setWorker_ne _ w _ hrw).mpr hexec
  · exact forall_setWorker (P := fun v => (Outbox.outgoing v.outbox).Consistent) h.outbox
      (h.outbox w)
  · exact forall_setWorker (P := fun v =>
      v.phase ≠ .executing → (Outbox.outgoing v.outbox).tasksBundleQueue = []) h.idle
      (fun _ => hqueue)

theorem receiveAck (h : Sound s) {w : WorkerRank W} {source : Rank W}
    (ht : receiveAck w source s = .moved t) : Sound t := by
  obtain ⟨hphase, hmem, network, hack, rfl⟩ := receiveAck_moved ht
  have hidle : ¬ s.executing w := by
    rw [executing_iff, hphase]
    exact WorkerPhase.noConfusion
  refine h.withNetwork ?_ ?_ fun hc => (receiveAck_center ht).deficit.trans (h.exited hc)
  · exact (h.network.processTaskReceivedAck hmem hack).releaseParentIfPassive hidle
  · exact TaskNetwork.Prompt.releaseParentIfPassive
      fun r hrw hr => h.prompt.processTaskReceivedAck hack r hrw hr

theorem processTermination (h : Sound s) {w : WorkerRank W}
    (ht : processTermination w s = .moved t) : Sound t := by
  obtain ⟨hphase, _, rfl⟩ := processTermination_moved ht
  have herase : Sound { s with terminations := s.terminations.erase w } :=
    ⟨h.network, h.prompt, h.outbox, h.idle,
      fun hcenter => by rw [h.notified hcenter, Multiset.erase_zero], h.exited⟩
  refine herase.setWorker ?_ (h.outbox w) (fun _ => h.idle w (by simp [hphase]))
  simp [hphase]

theorem sendFinalSolution (h : Sound s) {w : WorkerRank W} {report : Report}
    (ht : sendFinalSolution w report s = .moved t) : Sound t := by
  obtain ⟨hphase, _, rfl⟩ := sendFinalSolution_moved ht
  refine (h.withMessages s.notices ((w, report) ::ₘ s.reports)).setWorker ?_ (h.outbox w)
    (fun _ => h.idle w (by simp [hphase]))
  simp [hphase]

theorem consumeIntFlag (h : Sound s) {w : WorkerRank W} {tag : StateTag}
    (ht : consumeIntFlag w tag s = .moved t) : Sound t := by
  obtain ⟨_, _, rfl⟩ := consumeIntFlag_moved ht
  exact h.withMessages _ _

theorem centerAck (h : Sound s) {source : Rank W} (ht : centerAck source s = .moved t) :
    Sound t := by
  obtain ⟨hphase, hmem, network, hack, rfl⟩ := centerAck_moved ht
  have hsound := h.network.processTaskReceivedAck hmem hack
  refine h.withNetwork hsound (fun r hr hparent => ?_) fun hcenter => absurd hphase hcenter
  by_cases hrc : r = W.center
  · subst hrc
    exact absurd hsound.balanced.root_free hparent
  · exact h.prompt.processTaskReceivedAck hack r hrc hr hparent

theorem notifyTermination (h : Sound s) (hdeficit : s.deficit = 0) :
    Sound s.notifyTermination :=
  ⟨h.network, h.prompt, h.outbox, h.idle,
    fun hcenter => by simp [SchedulerState.notifyTermination] at hcenter, fun _ => hdeficit⟩

theorem centerBarrier (h : Sound s) (ht : centerBarrier s = .moved t) : Sound t := by
  obtain ⟨hphase, _, rfl⟩ := centerBarrier_moved ht
  exact ⟨h.network, h.prompt, h.outbox, h.idle, fun hcenter => by simp at hcenter,
    fun _ => h.exited (by simp [hphase])⟩

theorem receiveSolutionFrom (h : Sound s) {w : WorkerRank W} {tag : ProbedTag}
    (ht : receiveSolutionFrom w tag s = .moved t) : Sound t := by
  obtain ⟨hphase, ⟨state, _, _, rfl⟩ | ⟨report, _, _, rfl⟩⟩ := receiveSolutionFrom_moved ht
  · exact h.withMessages _ _
  · exact ⟨h.network, h.prompt, h.outbox, h.idle,
      fun hcenter => absurd hcenter (nextPhase_ne_receiving w),
      fun _ => h.exited (by simp [hphase])⟩

theorem quiet (h : Sound s) (hcenter : s.centerPhase ≠ .receiving) : s.Quiet := by
  obtain ⟨htasks, hacks, hquiescent, hpassive⟩ := h.network.quiet (h.exited hcenter)
  have hexec : ∀ w : WorkerRank W, (s.worker w).phase ≠ .executing := fun w hw =>
    hpassive w w.property ((executing_iff s w).mpr hw)
  refine ⟨htasks, hacks, hexec, fun w => ?_, fun r => ?_, fun r => ?_⟩
  · have hqueue := h.idle w (hexec w)
    have hflag := (h.outbox w).not_transmitting hqueue
    cases hout : s.outgoing w
    simp only [hout] at hqueue hflag
    rw [hqueue, hflag, Outgoing.initial]
  · exact ((TerminationDetector.isQuiescent_iff _).mp (hquiescent r)).1
  · exact ((TerminationDetector.isQuiescent_iff _).mp (hquiescent r)).2

/-- With no message in flight and no worker executing, the center is owed nothing. -/
theorem deficit_zero (h : Sound s) (htasks : s.network.tasks = 0) (hacks : s.network.acks = 0)
    (hexec : ∀ w, (s.worker w).phase ≠ .executing) : s.deficit = 0 :=
  h.network.center_deficit_zero h.prompt htasks hacks fun _ _ ⟨_, hphase⟩ => hexec _ hphase

theorem processTermination_not_raised (h : Sound s) {w : WorkerRank W} {f : Fault} :
    SchedulerState.processTermination w s ≠ .raised f := by
  intro ht
  simp only [SchedulerState.processTermination] at ht
  split at ht
  · rename_i hguard
    have hcenter : s.centerPhase ≠ .receiving := fun hc => by
      rw [h.notified hc] at hguard
      exact Multiset.notMem_zero _ hguard.2
    have hquiet := h.quiet hcenter
    have hquiescent : (s.network.detector w).isQuiescent = true :=
      (TerminationDetector.isQuiescent_iff _).mpr
        ⟨hquiet.deficit_zero w, hquiet.parent_none w⟩
    rw [hquiescent, hquiet.no_outgoing w] at ht
    simp [Outgoing.initial] at ht
  · cases ht

theorem receiveAck_not_raised (h : Sound s) {w : WorkerRank W} {source : Rank W} {f : Fault} :
    SchedulerState.receiveAck w source s ≠ .raised f := by
  intro ht
  simp only [SchedulerState.receiveAck] at ht
  split at ht
  · rename_i hguard
    split at ht
    · cases ht
    · rename_i hack
      exact h.network.ack_expected hguard.2 hack
  · cases ht

theorem centerAck_not_raised (h : Sound s) {source : Rank W} {f : Fault} :
    SchedulerState.centerAck source s ≠ .raised f := by
  intro ht
  simp only [SchedulerState.centerAck] at ht
  split at ht
  · rename_i hguard
    split at ht
    · cases ht
    · rename_i hack
      exact h.network.ack_expected hguard.2 hack
  · cases ht

theorem receiveSolutionFrom_not_raised (h : Sound s) {w : WorkerRank W} {tag : ProbedTag}
    {f : Fault} : SchedulerState.receiveSolutionFrom w tag s ≠ .raised f := by
  intro ht
  simp only [SchedulerState.receiveSolutionFrom] at ht
  split at ht
  · rename_i hphase
    have hquiet := h.quiet (by simp [hphase])
    split at ht
    · split at ht <;> cases ht
    · split at ht <;> cases ht
    · simp [hquiet.no_ack] at ht
    · simp [hquiet.no_task] at ht
  · cases ht

end Sound

end Gempba.SchedulerState
