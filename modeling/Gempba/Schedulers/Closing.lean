import Gempba.Schedulers.ProtocolInvariant

/-!
# The end of a run

After the center has left its receive loop the processes meet in a barrier,
the workers report and the center hears them in the order of their ranks. In
each state before the last one some process has a step left.
-/

namespace Gempba

set_option autoImplicit false

variable {W : World}

/-- What the end of a run depends on. -/
structure Ending (W : World) where
  phase : WorkerRank W → WorkerPhase
  centerPhase : CenterPhase W
  terminations : Multiset (WorkerRank W)
  reports : Multiset (WorkerRank W × Report)

namespace Ending

def setPhase (w : WorkerRank W) (p : WorkerPhase) (e : Ending W) : Ending W :=
  { e with phase := Function.update e.phase w p }

/-- The worker has entered the barrier. -/
def Arrived (e : Ending W) (w : WorkerRank W) : Prop :=
  e.phase w = .barrier ∨ e.phase w = .reported

/-- The center has not heard the worker's report. -/
def Awaits (e : Ending W) (w : WorkerRank W) : Prop :=
  match e.centerPhase with
  | .receiving | .barrier => True
  | .collecting next => next.val ≤ w.val
  | .finished => False

/-- What the processes still owe each other. -/
structure Closing (e : Ending W) : Prop where
  summoned : e.centerPhase ≠ .receiving → ∀ w, e.phase w = .receiving → w ∈ e.terminations
  left : ∀ w, e.Arrived w → e.centerPhase ≠ .receiving
  gathered : e.centerPhase ≠ .receiving → e.centerPhase ≠ .barrier → ∀ w, e.Arrived w
  awaited : ∀ w, e.phase w = .reported → e.Awaits w → ∃ report, (w, report) ∈ e.reports
  sent : ∀ w report, (w, report) ∈ e.reports → e.phase w = .reported
  heard : ∀ w, ¬ e.Awaits w → e.phase w = .reported

/-- Every worker has reported, and the center has heard them all. -/
structure Finished (e : Ending W) : Prop where
  center : e.centerPhase = .finished
  reported : ∀ w, e.phase w = .reported

variable {e : Ending W} {w : WorkerRank W}

theorem setPhase_phase (w : WorkerRank W) (p : WorkerPhase) (e : Ending W) (x : WorkerRank W) :
    (e.setPhase w p).phase x = if x = w then p else e.phase x :=
  Function.update_apply e.phase w p x

theorem awaits_collecting {next : WorkerRank W} (h : e.centerPhase = .collecting next) :
    e.Awaits w ↔ next.val ≤ w.val := by
  rw [Awaits, h]

theorem awaits_nextPhase {x : WorkerRank W} (hx : x.val ≤ w.val) :
    Awaits { e with centerPhase := nextPhase x } w ↔ x ≠ w := by
  have hval : x = w ↔ x.val.val = w.val.val :=
    ⟨fun h => h ▸ rfl, fun h => Subtype.ext (Fin.ext h)⟩
  have hx : x.val.val ≤ w.val.val := hx
  have hlt := w.val.isLt
  rw [Ne, hval, nextPhase]
  split
  · constructor
    · intro h
      have hle : x.val.val + 1 ≤ w.val.val := h
      omega
    · intro hne
      show x.val.val + 1 ≤ w.val.val
      omega
  · constructor
    · intro h
      exact absurd h id
    · intro hne
      omega

namespace Closing

/-- A worker takes up a task, or is back from one while the center still receives. -/
theorem setPhase (h : Closing e) {p : WorkerPhase} (hw : ¬ e.Arrived w)
    (hp : p ≠ .barrier ∧ p ≠ .reported)
    (hreceiving : p = .receiving → e.centerPhase = .receiving) : Closing (e.setPhase w p) := by
  have harrived : ∀ x, (e.setPhase w p).Arrived x ↔ x ≠ w ∧ e.Arrived x := by
    intro x
    rw [Arrived, setPhase_phase]
    split
    · rename_i hx
      simp [hx, hp]
    · rename_i hx
      exact (and_iff_right hx).symm
  have hnot : e.phase w ≠ .reported := fun hr => hw (Or.inr hr)
  constructor
  · intro hc x hx
    rw [setPhase_phase] at hx
    split at hx
    · exact absurd (hreceiving hx) hc
    · exact h.summoned hc x hx
  · intro x hx
    exact h.left x ((harrived x).mp hx).2
  · intro hc hb
    exact absurd (h.gathered hc hb w) hw
  · intro x hx ha
    rw [setPhase_phase] at hx
    split at hx
    · exact absurd hx hp.2
    · exact h.awaited x hx ha
  · intro x report hx
    have hreported := h.sent x report hx
    rw [setPhase_phase, if_neg]
    · exact hreported
    · rintro rfl
      exact hnot hreported
  · intro x ha
    have hreported := h.heard x ha
    rw [setPhase_phase, if_neg]
    · exact hreported
    · rintro rfl
      exact hnot hreported

theorem hearTermination (h : Closing e) (hw : e.phase w = .receiving)
    (hcenter : e.centerPhase ≠ .receiving) :
    Closing { e.setPhase w .barrier with terminations := e.terminations.erase w } := by
  have hphase : ∀ x p, p ≠ .barrier → (e.setPhase w .barrier).phase x = p →
      x ≠ w ∧ e.phase x = p := by
    intro x p hp hx
    rw [setPhase_phase] at hx
    split at hx
    · exact absurd hx.symm hp
    · rename_i hne
      exact ⟨hne, hx⟩
  have hreported : ∀ x, e.phase x = .reported → (e.setPhase w .barrier).phase x = .reported := by
    intro x hx
    rw [setPhase_phase, if_neg]
    · exact hx
    · rintro rfl
      rw [hw] at hx
      cases hx
  constructor
  · intro _ x hx
    obtain ⟨hne, hx⟩ := hphase x .receiving WorkerPhase.noConfusion hx
    exact (Multiset.mem_erase_of_ne hne).mpr (h.summoned hcenter x hx)
  · intro _ _
    exact hcenter
  · intro hc hb x
    obtain hx | hx := h.gathered hc hb x
    · left
      show (e.setPhase w .barrier).phase x = .barrier
      rw [setPhase_phase, hx, ite_self]
    · exact Or.inr (hreported x hx)
  · intro x hx ha
    exact h.awaited x (hphase x .reported WorkerPhase.noConfusion hx).2 ha
  · intro x report hx
    exact hreported x (h.sent x report hx)
  · intro x ha
    exact hreported x (h.heard x ha)

theorem report (h : Closing e) (hw : e.phase w = .barrier) (report : Report) :
    Closing { e.setPhase w .reported with reports := (w, report) ::ₘ e.reports } := by
  have hreported : ∀ x, e.phase x = .reported → (e.setPhase w .reported).phase x = .reported := by
    intro x hx
    rw [setPhase_phase, hx, ite_self]
  have hself : (e.setPhase w .reported).phase w = .reported := by
    rw [setPhase_phase, if_pos rfl]
  constructor
  · intro hc x hx
    have hx : (e.setPhase w .reported).phase x = .receiving := hx
    rw [setPhase_phase] at hx
    split at hx
    · cases hx
    · exact h.summoned hc x hx
  · intro _ _
    exact h.left w (Or.inl hw)
  · intro hc hb x
    obtain rfl | hne := eq_or_ne x w
    · exact Or.inr hself
    · obtain hx | hx := h.gathered hc hb x
      · left
        show (e.setPhase w .reported).phase x = .barrier
        rw [setPhase_phase, if_neg hne]
        exact hx
      · exact Or.inr (hreported x hx)
  · intro x hx ha
    obtain rfl | hne := eq_or_ne x w
    · exact ⟨report, Multiset.mem_cons_self _ _⟩
    · have hx : (e.setPhase w .reported).phase x = .reported := hx
      rw [setPhase_phase, if_neg hne] at hx
      obtain ⟨r, hr⟩ := h.awaited x hx ha
      exact ⟨r, Multiset.mem_cons_of_mem hr⟩
  · intro x r hx
    obtain hx | hx := Multiset.mem_cons.mp hx
    · obtain ⟨rfl, rfl⟩ := Prod.mk.inj hx
      exact hself
    · exact hreported x (h.sent x r hx)
  · intro x ha
    exact hreported x (h.heard x ha)

theorem exit (h : Closing e) (hcenter : e.centerPhase = .receiving) :
    Closing { e with centerPhase := .barrier, terminations := Finset.univ.val } := by
  have hawaits : ∀ w, e.Awaits w := by
    intro w
    rw [Awaits, hcenter]
    trivial
  constructor
  · intro _ w _
    exact Finset.mem_univ w
  · intro _ _ hphase
    cases hphase
  · intro _ hb
    exact absurd rfl hb
  · intro w hw _
    exact h.awaited w hw (hawaits w)
  · exact h.sent
  · intro w ha
    exact absurd trivial ha

theorem gather (h : Closing e) (hcenter : e.centerPhase = .barrier) (hall : ∀ w, e.Arrived w) :
    Closing { e with centerPhase := .collecting W.firstWorker } := by
  have hawaits : ∀ w, e.Awaits w := by
    intro w
    rw [Awaits, hcenter]
    trivial
  constructor
  · intro _ w hw
    apply h.summoned _ w hw
    simp [hcenter]
  · intro _ _ hphase
    cases hphase
  · intro _ _
    exact hall
  · intro w hw _
    exact h.awaited w hw (hawaits w)
  · exact h.sent
  · intro w ha
    refine absurd ?_ ha
    show W.first.val ≤ w.val.val
    have hne : w.val.val ≠ 0 := fun h0 => w.property (Fin.ext h0)
    have hone : W.first.val = 1 := rfl
    omega

theorem hear (h : Closing e) (hcenter : e.centerPhase = .collecting w) {report : Report}
    (hreport : (w, report) ∈ e.reports) :
    Closing { e with centerPhase := nextPhase w, reports := e.reports.erase (w, report) } := by
  have hreceiving : e.centerPhase ≠ .receiving := by simp [hcenter]
  have hall : ∀ x, e.Arrived x := h.gathered hreceiving (by simp [hcenter])
  have hbefore : ∀ x, Awaits { e with centerPhase := nextPhase w } x → e.Awaits x ∧ w ≠ x := by
    intro x hx
    have hle : w.val ≤ x.val := by
      have hx' : Awaits { e with centerPhase := nextPhase w } x := hx
      rw [Awaits, nextPhase] at hx'
      split at hx'
      · rename_i hlast hphase
        split at hphase
        · cases hphase
        · cases hphase
      · rename_i hlast hphase
        split at hphase
        · cases hphase
        · cases hphase
      · rename_i next hphase
        split at hphase
        · cases hphase
          exact Nat.le_of_succ_le hx'
        · cases hphase
      · exact absurd hx' id
    exact ⟨(awaits_collecting hcenter).mpr hle, (awaits_nextPhase hle).mp hx⟩
  constructor
  · intro _ x hx
    exact h.summoned hreceiving x hx
  · intro _ _
    exact nextPhase_ne_receiving w
  · intro _ _
    exact hall
  · intro x hx ha
    obtain ⟨hbefore, hne⟩ := hbefore x ha
    obtain ⟨r, hr⟩ := h.awaited x hx hbefore
    refine ⟨r, (Multiset.mem_erase_of_ne ?_).mpr hr⟩
    intro heq
    exact hne (congrArg Prod.fst heq).symm
  · intro x r hx
    exact h.sent x r (Multiset.mem_of_mem_erase hx)
  · intro x ha
    obtain rfl | hne := eq_or_ne w x
    · exact h.sent w report hreport
    · apply h.heard x
      intro hx
      have hafter : Awaits { e with centerPhase := nextPhase w } x :=
        (awaits_nextPhase ((awaits_collecting hcenter).mp hx)).mpr hne
      exact ha hafter

end Closing

end Ending

namespace SchedulerState

variable {Ω : Type} {s t : SchedulerState W Ω} {w : WorkerRank W}

def ending (s : SchedulerState W Ω) : Ending W :=
  ⟨fun w => (s.worker w).phase, s.centerPhase, s.terminations, s.reports⟩

abbrev Closing (s : SchedulerState W Ω) : Prop := s.ending.Closing

abbrev Finished (s : SchedulerState W Ω) : Prop := s.ending.Finished

theorem ending_setWorker (w : WorkerRank W) (v : Worker Ω) (s : SchedulerState W Ω) :
    (s.setWorker w v).ending = s.ending.setPhase w v.phase := by
  have hphase : (fun x => (Function.update s.worker w v x).phase) =
      Function.update (fun x => (s.worker x).phase) w v.phase :=
    Function.comp_update Worker.phase s.worker w v
  rw [ending, setWorker, hphase]
  rfl

theorem ending_setOutbox (w : WorkerRank W) (outbox : Ω) (s : SchedulerState W Ω) :
    (s.setWorker w { s.worker w with outbox }).ending = s.ending := by
  have hphase : s.ending.phase w = (s.worker w).phase := rfl
  rw [ending_setWorker, Ending.setPhase, ← hphase, Function.update_eq_self]

theorem not_arrived {phase : WorkerPhase} (h : (s.worker w).phase = phase)
    (hphase : phase ≠ .barrier ∧ phase ≠ .reported) : ¬ s.ending.Arrived w := by
  rintro (hbarrier | hreported)
  · exact hphase.1 (h.symm.trans hbarrier)
  · exact hphase.2 (h.symm.trans hreported)

theorem closing_sendSeed (outbox : Ω) (seed : TaskBundle) :
    Closing (sendSeed outbox seed : SchedulerState W Ω) := by
  constructor
  · intro hcenter
    exact absurd rfl hcenter
  · rintro w (hphase | hphase)
    · cases hphase
    · cases hphase
  · intro hcenter
    exact absurd rfl hcenter
  · intro w hphase
    cases hphase
  · intro w report hreport
    exact absurd hreport (Multiset.notMem_zero _)
  · intro w ha
    exact absurd trivial ha

namespace Closing

theorem processMessage (h : Closing s) {source : Rank W} {bundle : TaskBundle}
    (ht : processMessage w source bundle s = .moved t) : Closing t := by
  obtain ⟨hphase, _, rfl⟩ := processMessage_moved ht
  rw [Closing, ending_setWorker]
  apply Ending.Closing.setPhase h
  · exact not_arrived hphase (by simp)
  · simp
  · intro hreceiving
    cases hreceiving

theorem push (h : Closing s) {tryOpen : Ω → Bool} {forcePush : Ω → Except Fault Ω}
    (ht : push tryOpen forcePush w s = .moved t) : Closing t := by
  obtain ⟨_, _, outbox, _, rfl⟩ := push_moved ht
  rwa [Closing, ending_setOutbox]

theorem send (h : Closing s) {sendSection : Ω → Option (Except Fault (Rank W × TaskBundle × Ω))}
    (ht : send sendSection w s = .moved t) : Closing t := by
  obtain ⟨_, destination, bundle, outbox, _, rfl⟩ := send_moved ht
  have hsent : Closing (s.mapNetwork (·.sendTask ⟨w, destination, bundle⟩)) := h
  rw [Closing, ← ending_setOutbox w outbox] at hsent
  exact hsent

theorem updateOutbox (h : Closing s) {phases : List WorkerPhase} {f : Ω → Ω}
    (ht : updateOutbox phases f w s = .moved t) : Closing t := by
  obtain ⟨_, rfl⟩ := updateOutbox_moved ht
  rwa [Closing, ending_setOutbox]

theorem processTermination [Outbox Ω] (h : Closing s) (hsound : s.Sound)
    (ht : processTermination w s = .moved t) : Closing t := by
  obtain ⟨hphase, hmem, rfl⟩ := processTermination_moved ht
  rw [Closing, ending_setWorker]
  apply Ending.Closing.hearTermination h hphase
  intro hcenter
  rw [hsound.notified hcenter] at hmem
  exact Multiset.notMem_zero w hmem

theorem leaveFunnel [Outbox Ω] (h : Closing s) (hsound : s.Sound)
    (ht : leaveFunnel w s = .moved t) : Closing t := by
  obtain ⟨hphase, _, rfl⟩ := leaveFunnel_moved ht
  rw [Closing, ending_setWorker]
  apply Ending.Closing.setPhase h
  · exact not_arrived hphase (by simp)
  · simp
  · intro _
    by_contra hcenter
    exact (hsound.quiet hcenter).not_executing w hphase

theorem receiveAck (h : Closing s) {source : Rank W} (ht : receiveAck w source s = .moved t) :
    Closing t := by
  obtain ⟨_, _, network, _, rfl⟩ := receiveAck_moved ht
  exact h

theorem sendFinalSolution (h : Closing s) {report : Report}
    (ht : sendFinalSolution w report s = .moved t) : Closing t := by
  obtain ⟨hphase, _, rfl⟩ := sendFinalSolution_moved ht
  rw [Closing, ending_setWorker]
  exact Ending.Closing.report h hphase report

theorem consumeIntFlag (h : Closing s) {tag : StateTag}
    (ht : consumeIntFlag w tag s = .moved t) : Closing t := by
  obtain ⟨_, _, rfl⟩ := consumeIntFlag_moved ht
  exact h

theorem centerAck (h : Closing s) {source : Rank W} (ht : centerAck source s = .moved t) :
    Closing t := by
  obtain ⟨_, _, network, _, rfl⟩ := centerAck_moved ht
  exact h

theorem notifyTermination (h : Closing s) (hcenter : s.centerPhase = .receiving) :
    Closing s.notifyTermination :=
  Ending.Closing.exit h hcenter

theorem centerBarrier (h : Closing s) (ht : centerBarrier s = .moved t) : Closing t := by
  obtain ⟨hphase, hbarrier, rfl⟩ := centerBarrier_moved ht
  exact Ending.Closing.gather h hphase hbarrier.2

theorem receiveSolutionFrom (h : Closing s) {tag : ProbedTag}
    (ht : receiveSolutionFrom w tag s = .moved t) : Closing t := by
  obtain ⟨hphase, ⟨_, _, _, rfl⟩ | ⟨report, _, hreport, rfl⟩⟩ := receiveSolutionFrom_moved ht
  · exact h
  · exact Ending.Closing.hear h hphase hreport

end Closing

/-! ## The step that is left -/

theorem receiving_or_executing (hclosing : s.Closing) (hcenter : s.centerPhase = .receiving)
    (w : WorkerRank W) :
    (s.worker w).phase = .receiving ∨ (s.worker w).phase = .executing := by
  cases hphase : (s.worker w).phase with
  | receiving => exact Or.inl rfl
  | executing => exact Or.inr rfl
  | barrier => exact absurd hcenter (hclosing.left w (Or.inl hphase))
  | reported => exact absurd hcenter (hclosing.left w (Or.inr hphase))

theorem processMessage_goesOn (hphase : (s.worker w).phase = .receiving) {source : Rank W}
    {bundle : TaskBundle} (hmem : ⟨source, w, bundle⟩ ∈ s.network.tasks) :
    ∃ t, processMessage w source bundle s = .moved t := by
  rw [processMessage, if_pos ⟨hphase, hmem⟩]
  exact ⟨_, rfl⟩

variable [Outbox Ω]

theorem leaveFunnel_goesOn (hphase : (s.worker w).phase = .executing)
    (hqueue : (s.outgoing w).tasksBundleQueue = []) : ∃ t, leaveFunnel w s = .moved t := by
  rw [leaveFunnel, if_pos ⟨hphase, hqueue⟩]
  exact ⟨_, rfl⟩

theorem receiveAck_goesOn (hsound : s.Sound) (hphase : (s.worker w).phase = .receiving)
    {source : Rank W} (hmem : ⟨source, w⟩ ∈ s.network.acks) :
    ∃ t, receiveAck w source s = .moved t := by
  rw [receiveAck, if_pos ⟨hphase, hmem⟩]
  cases hack : s.network.processTaskReceivedAck ⟨source, w⟩ with
  | none => exact absurd hack (hsound.network.ack_expected hmem)
  | some network => exact ⟨_, rfl⟩

theorem centerAck_goesOn (hsound : s.Sound) (hcenter : s.centerPhase = .receiving)
    {source : Rank W} (hmem : ⟨source, W.center⟩ ∈ s.network.acks) :
    ∃ t, centerAck source s = .moved t := by
  rw [centerAck, if_pos ⟨hcenter, hmem⟩]
  cases hack : s.network.processTaskReceivedAck ⟨source, W.center⟩ with
  | none => exact absurd hack (hsound.network.ack_expected hmem)
  | some network => exact ⟨_, rfl⟩

theorem processTermination_goesOn (hsound : s.Sound)
    (hphase : (s.worker w).phase = .receiving) (hmem : w ∈ s.terminations) :
    ∃ t, processTermination w s = .moved t := by
  cases ht : processTermination w s with
  | moved t => exact ⟨t, rfl⟩
  | raised f => exact absurd ht hsound.processTermination_not_raised
  | blocked =>
    rw [processTermination, if_pos ⟨hphase, hmem⟩] at ht
    split at ht
    · cases ht
    · cases ht

/-- What is left to do once the center has left its loop. -/
theorem closing_goesOn (hsound : s.Sound) (hclosing : s.Closing)
    (hcenter : s.centerPhase ≠ .receiving) :
    s.Finished ∨ (∃ w t, processTermination w s = .moved t) ∨
      (∃ t, centerBarrier s = .moved t) ∨ (∃ w t, sendFinalSolution w none s = .moved t) ∨
      ∃ w report t, receiveSolutionFrom w (.report report) s = .moved t := by
  by_cases hsummoned : ∃ w, (s.worker w).phase = .receiving
  · obtain ⟨w, hphase⟩ := hsummoned
    have hmem : w ∈ s.terminations := hclosing.summoned hcenter w hphase
    exact Or.inr (Or.inl ⟨w, processTermination_goesOn hsound hphase hmem⟩)
  · have harrived : ∀ w, (s.worker w).phase = .barrier ∨ (s.worker w).phase = .reported := by
      intro w
      cases hphase : (s.worker w).phase with
      | receiving => exact absurd ⟨w, hphase⟩ hsummoned
      | executing => exact absurd hphase ((hsound.quiet hcenter).not_executing w)
      | barrier => exact Or.inl rfl
      | reported => exact Or.inr rfl
    have hreached : s.barrierReached := ⟨hcenter, harrived⟩
    cases hphase : s.centerPhase with
    | receiving => exact absurd hphase hcenter
    | barrier =>
      refine Or.inr (Or.inr (Or.inl ?_))
      rw [centerBarrier, if_pos ⟨hphase, hreached⟩]
      exact ⟨_, rfl⟩
    | collecting w =>
      obtain hw | hw := harrived w
      · refine Or.inr (Or.inr (Or.inr (Or.inl ⟨w, ?_⟩)))
        rw [sendFinalSolution, if_pos ⟨hw, hreached⟩]
        exact ⟨_, rfl⟩
      · have hawaits : s.ending.Awaits w := (Ending.awaits_collecting hphase).mpr le_rfl
        obtain ⟨report, hreport⟩ := hclosing.awaited w hw hawaits
        have hreport : (w, report) ∈ s.reports := hreport
        refine Or.inr (Or.inr (Or.inr (Or.inr ⟨w, report, ?_⟩)))
        simp only [receiveSolutionFrom, if_pos hphase, if_pos hreport]
        exact ⟨_, rfl⟩
    | finished =>
      refine Or.inl ⟨hphase, ?_⟩
      intro w
      apply hclosing.heard w
      have hcollected : s.ending.centerPhase = .finished := hphase
      rw [Ending.Awaits, hcollected]
      exact id

end SchedulerState

end Gempba
