import Gempba.Schedulers.FetchSolution

/-!
# From the reports of the workers to the packet fetched

Both schedulers collect the reports with the same loop: rank by rank, state
notifications are consumed until `HAS_RESULT` or `NO_RESULT` arrives, and the
slot of a rank without a result keeps its placeholder. The score of that
placeholder is an ordinary score, -1 of kind I32.
-/

namespace Gempba

set_option autoImplicit false

open Transition

variable {W : World}

/-- What `receive_solution` writes at the center. -/
structure Collected (W : World) where
  bestResults : Rank W → Result
  totalRequestsNumber : ℕ
  totalRequestedTasks : ℕ
  coordinatorMessagesHandled : ℕ

namespace Collected

/-- The slots as they are before the reports arrive. -/
def before (totalRequestsNumber totalRequestedTasks coordinatorMessagesHandled : ℕ) :
    Collected W :=
  ⟨fun _ => Result.EMPTY, totalRequestsNumber, totalRequestedTasks, coordinatorMessagesHandled⟩

/-- The counters after `n` state notifications. -/
def consume (n : ℕ) (c : Collected W) : Collected W :=
  { c with
    totalRequestsNumber := c.totalRequestsNumber + n
    totalRequestedTasks := c.totalRequestedTasks + n
    coordinatorMessagesHandled := c.coordinatorMessagesHandled + n }

def store (w : WorkerRank W) (report : Report) (c : Collected W) : Collected W :=
  { c with
    bestResults := match report with
      | some result => Function.update c.bestResults w result
      | none => c.bestResults }

theorem consume_consume (m n : ℕ) (c : Collected W) :
    (c.consume m).consume n = c.consume (m + n) := by
  simp only [consume, Nat.add_assoc]

end Collected

/-- The loop over the messages of one rank, in the order of its channel. -/
def receiveSolutionFrom (w : WorkerRank W) :
    List ProbedTag → Collected W → Outcome Fault (Collected W)
  | [], _ => .blocked
  | .state _ :: channel, c => receiveSolutionFrom w channel (c.consume 1)
  | .report report :: _, c => .moved (c.store w report)
  | .acknowledgement :: _, _ => .raised .unknownTag
  | .task _ :: _, _ => .raised .unknownTag

def receiveSolution (channel : WorkerRank W → List ProbedTag) :
    List (WorkerRank W) → Collected W → Outcome Fault (Collected W)
  | [], c => .moved c
  | w :: ws, c => (receiveSolutionFrom w (channel w) c).bind (receiveSolution channel ws)

/-- The channel of a worker after the barrier: late state notifications, then the report. -/
def lastMessages (flags : List StateTag) (report : Report) : List ProbedTag :=
  flags.map .state ++ [.report report]

theorem receiveSolutionFrom_lastMessages (w : WorkerRank W) (flags : List StateTag)
    (report : Report) (c : Collected W) :
    receiveSolutionFrom w (lastMessages flags report) c =
      .moved ((c.consume flags.length).store w report) := by
  induction flags generalizing c with
  | nil => rfl
  | cons flag flags ih =>
    calc receiveSolutionFrom w (lastMessages (flag :: flags) report) c
        = receiveSolutionFrom w (lastMessages flags report) (c.consume 1) := rfl
      _ = .moved (((c.consume 1).consume flags.length).store w report) := ih _
      _ = .moved ((c.consume (flag :: flags).length).store w report) := by
          rw [Collected.consume_consume, List.length_cons, Nat.add_comm]

theorem Collected.bestResults_store (w v : WorkerRank W) (report : Report) (c : Collected W) :
    (c.store w report).bestResults v =
      if v = w then report.getD (c.bestResults v) else c.bestResults v := by
  cases report with
  | none =>
    rw [Option.getD_none, ite_self]
    rfl
  | some result =>
    obtain rfl | hne := eq_or_ne v w
    · rw [if_pos rfl]
      exact Function.update_self ..
    · rw [if_neg hne]
      exact Function.update_of_ne (fun he => hne (Subtype.ext he)) ..

/-- The reports fill the slots of the ranks heard, and every notification is counted. -/
theorem receiveSolution_reports (flags : WorkerRank W → List StateTag)
    (reports : WorkerRank W → Report) (ws : List (WorkerRank W)) (c : Collected W) :
    ∃ c', receiveSolution (fun w => lastMessages (flags w) (reports w)) ws c = .moved c' ∧
      (∀ v : WorkerRank W, c'.bestResults v =
        if v ∈ ws then (reports v).getD (c.bestResults v) else c.bestResults v) ∧
      c'.totalRequestsNumber =
        c.totalRequestsNumber + (ws.map fun w => (flags w).length).sum := by
  induction ws generalizing c with
  | nil => exact ⟨c, rfl, fun _ => rfl, rfl⟩
  | cons w ws ih =>
    obtain ⟨c', hrest, hresults, hcount⟩ := ih ((c.consume (flags w).length).store w (reports w))
    refine ⟨c', ?_, fun v => ?_, ?_⟩
    · rw [receiveSolution, receiveSolutionFrom_lastMessages]
      exact hrest
    · rw [hresults v, Collected.bestResults_store]
      obtain rfl | hne := eq_or_ne v w
      · rw [if_pos rfl, if_pos List.mem_cons_self]
        cases reports v with
        | none => exact ite_self _
        | some result => exact ite_self _
      · rw [if_neg hne]
        simp only [List.mem_cons, hne, false_or]
        rfl
    · rw [hcount, List.map_cons, List.sum_cons, ← Nat.add_assoc]
      rfl

/-- Only the slots of the workers are searched. -/
theorem fetchSolution_congr {bestResults bestResults' : Rank W → Result} {globalScore : Score}
    (h : ∀ w : WorkerRank W, bestResults w = bestResults' w) :
    fetchSolution bestResults globalScore = fetchSolution bestResults' globalScore := by
  simp only [fetchSolution, h]

/-- The slots once every worker has reported. -/
def slots (reports : WorkerRank W → Report) (r : Rank W) : Result :=
  if h : r ≠ W.center then (reports ⟨r, h⟩).getD Result.EMPTY else Result.EMPTY

theorem slots_worker (reports : WorkerRank W → Report) (w : WorkerRank W) :
    slots reports w = (reports w).getD Result.EMPTY := by
  rw [slots, dif_pos w.property]

/-- The machines of both schedulers end with the slots that the loop fills. -/
theorem Scheduler.Heard.fetchSolution {S : Scheduler W} {s : S.Scored} (h : Scheduler.Heard s)
    {reports : WorkerRank W → Report} (hreports : ∀ w, s.scores.reported w = some (reports w)) :
    Gempba.fetchSolution s.outline.bestResults s.scores.globalScore =
      Gempba.fetchSolution (slots reports) s.scores.globalScore := by
  refine fetchSolution_congr fun w => ?_
  obtain ⟨r, hr, hbest⟩ := h.reported w
  cases (hreports w).symm.trans hr
  rw [hbest, slots_worker]

theorem placeholder_equals_iff {globalScore : Score} :
    Result.EMPTY.score.equals globalScore = true ↔
      globalScore.kind = .I32 ∧ globalScore.readInt = some (-1) := by
  rw [Score.equals]
  obtain hkind | hkind := eq_or_ne Result.EMPTY.score.kind globalScore.kind
  · have hread : globalScore.readInt = some (globalScore.payload.setWidth 32).toInt := by
      rw [Score.readInt, ← hkind]
      rfl
    have hvalue : globalScore.value =
        some (Numeric.finite (globalScore.payload.setWidth 32).toInt) := by
      rw [Score.value, ← hkind, hread]
      rfl
    have hplaceholder : Result.EMPTY.score.value = some (Numeric.finite (-1 : ℤ)) := rfl
    rw [if_neg (not_not.mpr hkind), hvalue, hplaceholder, hread, Score.compareValues,
      beq_iff_eq, Option.some_inj, Option.some_inj, cmp_eq_eq_iff, Numeric.finite, Numeric.finite,
      WithBot.coe_inj, WithTop.coe_inj, Int.cast_inj]
    exact ⟨fun h => ⟨hkind.symm, h.symm⟩, fun h => h.2.symm⟩
  · rw [if_pos hkind]
    exact ⟨(by rintro ⟨⟩), fun h => absurd h.1.symm hkind⟩

/-- A worker reported `packet` with the global score. -/
def ReportedBy (reports : WorkerRank W → Report) (globalScore : Score) (w : WorkerRank W)
    (packet : TaskPacket) : Prop :=
  ∃ score, reports w = some ⟨score, packet⟩ ∧ score.equals globalScore = true

/-- If some worker reported the global score, the packet is that of such a worker and not the
one of the placeholder. -/
def PicksOptimal (reports : WorkerRank W → Report) (globalScore : Score) (fetched : TaskPacket) :
    Prop :=
  (∃ w packet, ReportedBy reports globalScore w packet) →
    (∃ w, ReportedBy reports globalScore w fetched) ∧ fetched ≠ Result.EMPTY.packet

/-- The global score is not the one of the placeholder, or the first worker that reported it
comes before all workers without a result. -/
def Unhidden (reports : WorkerRank W → Report) (globalScore : Score) : Prop :=
  globalScore.kind = .I32 → globalScore.readInt = some (-1) →
    (∃ w packet, ReportedBy reports globalScore w packet) →
      ∀ w, reports w = none →
        ∃ v packet, v.val < w.val ∧ ReportedBy reports globalScore v packet

section Fetched

variable {reports : WorkerRank W → Report} {globalScore : Score}

theorem ReportedBy.slot {w : WorkerRank W} {packet : TaskPacket}
    (h : ReportedBy reports globalScore w packet) :
    (slots reports w).score.equals globalScore = true := by
  obtain ⟨score, hreport, hscore⟩ := h
  rw [slots_worker, hreport]
  exact hscore

theorem unhidden_of_picksOptimal
    (h : PicksOptimal reports globalScore (fetchSolution (slots reports) globalScore)) :
    Unhidden reports globalScore := by
  intro hkind hvalue hreported w hw
  have hplaceholder : (slots reports w).score.equals globalScore = true := by
    rw [slots_worker, hw]
    exact placeholder_equals_iff.mpr ⟨hkind, hvalue⟩
  obtain ⟨v, hle, hv, hfirst⟩ := exists_first hplaceholder
  have hfetched := (h hreported).2
  rw [fetchSolution_eq hv hfirst, slots_worker] at hfetched
  cases hr : reports v with
  | none =>
    rw [hr] at hfetched
    exact absurd rfl hfetched
  | some r =>
    have hne : v.val ≠ w.val := by
      intro he
      rw [Subtype.ext he, hw] at hr
      cases hr
    refine ⟨v, r.packet, lt_of_le_of_ne hle hne, r.score, hr, ?_⟩
    rw [slots_worker, hr] at hv
    exact hv

theorem picksOptimal_of_unhidden
    (hpackets : ∀ w r, reports w = some r → r.packet ≠ [])
    (h : Unhidden reports globalScore) :
    PicksOptimal reports globalScore (fetchSolution (slots reports) globalScore) := by
  intro hreported
  obtain ⟨w, packet, hw⟩ := hreported
  obtain ⟨v, _, hv, hfirst⟩ := exists_first hw.slot
  have hfetched := fetchSolution_eq hv hfirst
  rw [slots_worker] at hv hfetched
  cases hr : reports v with
  | none =>
    -- the placeholder comes first, so that a lower rank reported the same score
    rw [hr] at hv
    obtain ⟨hkind, hvalue⟩ := placeholder_equals_iff.mp hv
    obtain ⟨u, packet', hlt, hu⟩ := h hkind hvalue ⟨w, packet, hw⟩ v hr
    have hnot := hfirst u hlt
    rw [hu.slot] at hnot
    cases hnot
  | some r =>
    rw [hr] at hv hfetched
    rw [hfetched]
    exact ⟨⟨v, r.score, hr, hv⟩, hpackets v r hr⟩

end Fetched

/-- The packet of an optimal report is fetched exactly when no placeholder hides it. -/
theorem fetchSolution_picksOptimal_iff (flags : WorkerRank W → List StateTag)
    (reports : WorkerRank W → Report) (globalScore : Score)
    (hpackets : ∀ w r, reports w = some r → r.packet ≠ []) (requests tasks messages : ℕ) :
    ∃ c : Collected W,
      receiveSolution (fun w => lastMessages (flags w) (reports w)) W.workers
        (.before requests tasks messages) = .moved c ∧
      (PicksOptimal reports globalScore (fetchSolution c.bestResults globalScore) ↔
        Unhidden reports globalScore) := by
  obtain ⟨c, hmoved, hresults, _⟩ :=
    receiveSolution_reports flags reports W.workers (.before requests tasks messages)
  have hfetch : fetchSolution c.bestResults globalScore =
      fetchSolution (slots reports) globalScore := by
    refine fetchSolution_congr fun w => ?_
    rw [hresults w, if_pos (World.mem_workers w), slots_worker]
    rfl
  refine ⟨c, hmoved, ?_⟩
  rw [hfetch]
  exact ⟨unhidden_of_picksOptimal, picksOptimal_of_unhidden hpackets⟩

def three : World := ⟨3, Nat.le_succ 2⟩

/-- Rank 1 has no result, rank 2 reports a packet with the score -1. -/
def secondReports (w : WorkerRank three) : Report :=
  if w = World.firstWorker three then none else some ⟨.makeInt (-1), [9]⟩

theorem fetchSolution_picksOptimal_iff_secondReports :
    ∃ c : Collected three,
      receiveSolution (fun w => lastMessages [] (secondReports w)) three.workers
        (.before 0 0 0) = .moved c ∧
      (PicksOptimal secondReports (.makeInt (-1))
        (fetchSolution c.bestResults (.makeInt (-1))) ↔
          Unhidden secondReports (.makeInt (-1))) := by
  refine fetchSolution_picksOptimal_iff (fun _ => []) secondReports _ ?_ 0 0 0
  intro w r hr
  rw [secondReports] at hr
  split at hr
  · cases hr
  · cases hr
    exact List.cons_ne_nil 9 []

theorem fetchSolution_placeholder :
    ∃ c : Collected three,
      receiveSolution (fun w => lastMessages [] (secondReports w)) three.workers
        (.before 0 0 0) = .moved c ∧
      (∃ w packet, ReportedBy secondReports (.makeInt (-1)) w packet) ∧
      ¬ PicksOptimal secondReports (.makeInt (-1))
        (fetchSolution c.bestResults (.makeInt (-1))) := by
  have hreported : ∃ w packet, ReportedBy secondReports (.makeInt (-1)) w packet :=
    ⟨⟨⟨2, by decide⟩, by decide⟩, [9], .makeInt (-1), rfl, by decide⟩
  refine ⟨_, rfl, hreported, fun h => ?_⟩
  exact absurd rfl (h hreported).2

end Gempba
