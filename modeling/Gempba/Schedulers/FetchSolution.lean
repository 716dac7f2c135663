import Gempba.Schedulers.BestSolution

/-!
# The solution fetched by the center

The center keeps one result for each worker, a placeholder for one that
reported nothing, and fetches the packet of the first result with the global
score. In the centralized scheduler a score offered after the last poll of the
funnel never reaches the center.
-/

namespace Gempba

set_option autoImplicit false

variable {W : World}

def fetchSolution (bestResults : Rank W → Result) (globalScore : Score) : TaskPacket :=
  match W.workers.find? fun w : WorkerRank W => (bestResults w).score.equals globalScore with
  | some w => (bestResults w).packet
  | none => []

/-- The packet is that of the first worker with the score. -/
theorem fetchSolution_eq {bestResults : Rank W → Result} {globalScore : Score} {w : WorkerRank W}
    (hw : (bestResults w).score.equals globalScore = true)
    (hfirst : ∀ v : WorkerRank W, v.val < w.val →
      (bestResults v).score.equals globalScore = false) :
    fetchSolution bestResults globalScore = (bestResults w).packet := by
  have hfind : (W.workers.find? fun w : WorkerRank W =>
      (bestResults w).score.equals globalScore) = some w := by
    obtain ⟨before, after, hsplit⟩ := List.append_of_mem (World.mem_workers w)
    rw [List.find?_eq_some_iff_append]
    refine ⟨hw, before, after, hsplit, fun v hv => ?_⟩
    have hpairwise := W.pairwise_workers
    rw [hsplit, List.pairwise_append] at hpairwise
    rw [hfirst v (hpairwise.2.2 v hv w List.mem_cons_self)]
    rfl
  rw [fetchSolution, hfind]

theorem exists_first {bestResults : Rank W → Result} {globalScore : Score} {w : WorkerRank W}
    (hw : (bestResults w).score.equals globalScore = true) :
    ∃ v : WorkerRank W, v.val ≤ w.val ∧ (bestResults v).score.equals globalScore = true ∧
      ∀ u : WorkerRank W, u.val < v.val → (bestResults u).score.equals globalScore = false := by
  obtain ⟨v, hv, hmin⟩ := (Finset.univ.filter fun v : WorkerRank W =>
    (bestResults v).score.equals globalScore = true).exists_min_image (fun v => v.val)
      ⟨w, by simpa using hw⟩
  simp only [Finset.mem_filter, Finset.mem_univ, true_and] at hv hmin
  refine ⟨v, hmin w hw, hv, fun u hu => ?_⟩
  rw [Bool.eq_false_iff]
  intro hscore
  exact absurd (hmin u hscore) (not_le.mpr hu)

namespace Scheduler

variable {S : Scheduler W} {model : DataModel} {goal : Goal} {kind : ScoreType} {init : Score}

/-- The fetched packet was offered with a score that no offer improves on. -/
def Fetched (goal : Goal) (s : S.Scored) : Prop :=
  ∃ x ∈ s.scores.offers,
    x.2.packet = fetchSolution s.outline.bestResults s.scores.globalScore ∧
      ∀ y ∈ s.scores.offers, shouldUpdate goal x.2.score y.2.score = false

/-- A worker without a result, whose placeholder has the global score, comes after one that
reports this score. -/
def Unmasked (s : S.Scored) : Prop :=
  ∀ w, s.scores.reported w = some none →
    Result.EMPTY.score.equals s.scores.globalScore = true →
      ∃ v r, v.val < w.val ∧ s.scores.reported v = some (some r) ∧
        r.score.equals s.scores.globalScore = true

theorem Heard.bestResults_of_some {s : S.Scored} (h : Heard s) {w : WorkerRank W} {r : Result}
    (hr : s.scores.reported w = some (some r)) : s.outline.bestResults w = r := by
  obtain ⟨q, hq, hbest⟩ := h.reported w
  rw [hr] at hq
  cases hq
  exact hbest

theorem Heard.bestResults_of_none {s : S.Scored} (h : Heard s) {w : WorkerRank W}
    (hr : s.scores.reported w = some none) : s.outline.bestResults w = Result.EMPTY := by
  obtain ⟨q, hq, hbest⟩ := h.reported w
  rw [hr] at hq
  cases hq
  exact hbest

/-- Unless a placeholder hides it, the packet of an optimal offer is fetched, and only then. -/
theorem fetched_iff {s : S.Scored} (h : Heard s) (hbest : BestSolution goal s)
    (hnumber : s.scores.globalScore.value ≠ none)
    (hpackets : ∀ x ∈ s.scores.offers, x.2.packet ≠ []) : Fetched goal s ↔ Unmasked s := by
  have hself : s.scores.globalScore.equals s.scores.globalScore = true := by
    obtain ⟨a, ha⟩ := Option.ne_none_iff_exists'.mp hnumber
    exact Score.equals_self ha
  constructor
  · rintro ⟨x, hx, hpacket, _⟩ w hw hplaceholder
    have hscore : (s.outline.bestResults w).score.equals s.scores.globalScore = true := by
      rw [h.bestResults_of_none hw]
      exact hplaceholder
    obtain ⟨v, hle, hv, hfirst⟩ := exists_first hscore
    obtain ⟨q, hq, hresult⟩ := h.reported v
    cases q with
    | none =>
      rw [fetchSolution_eq hv hfirst, hresult] at hpacket
      exact absurd hpacket (hpackets x hx)
    | some r =>
      have hne : (v : Rank W) ≠ w := by
        intro he
        rw [Subtype.ext he, hw] at hq
        cases hq
      rw [hresult] at hv
      exact ⟨v, r, lt_of_le_of_ne hle hne, hq, hv⟩
  · intro hunmasked
    obtain ⟨w, packet, _, hreported⟩ := hbest.reported
    have hscore : (s.outline.bestResults w).score.equals s.scores.globalScore = true := by
      rw [h.bestResults_of_some hreported]
      exact hself
    obtain ⟨v, _, hv, hfirst⟩ := exists_first hscore
    obtain ⟨q, hq, hresult⟩ := h.reported v
    rw [hresult] at hv
    cases q with
    | none =>
      obtain ⟨u, r, hlt, hu, hequal⟩ := hunmasked v hq hv
      have hnot := hfirst u hlt
      rw [h.bestResults_of_some hu, hequal] at hnot
      cases hnot
    | some r =>
      refine ⟨(v, r), h.offered v r hq, ?_, fun y hy => ?_⟩
      · rw [fetchSolution_eq (by rw [hresult]; exact hv) hfirst, hresult]
        rfl
      · have hvalue : r.score.value = s.scores.globalScore.value := Score.value_eq_of_equals hv
        rw [shouldUpdate_congr hvalue]
        exact hbest.optimal y hy

namespace Invariant

variable {s : S.Scored}

theorem globalScore_number (h : Invariant goal init s) (hbest : BestSolution goal s) :
    s.scores.globalScore.value ≠ none := by
  obtain ⟨w, packet, _, hreported⟩ := hbest.reported
  have hfinal := (h.linked.reports w _ hreported).2.symm
  have hnumber := (h.sound.worker w).number
  rwa [← NodeManager.score_of_finalSolution hfinal] at hnumber

end Invariant

/-- The centralized scheduler ends with the best solution when each worker leaves its loop with
nothing better to propose and no placeholder hides the packet. At the end of any run this fails
exactly when a worker has kept a better score, or a placeholder hides the packet. -/
theorem centralized_bestSolution (hinit : getDefaultScore model goal kind = some init) :
    (∀ s : (centralized W).Scored,
      ((centralized W).scored model goal kind).ReachableWhere (Proposed goal) s →
      s.outline.centerPhase = .finished → Improves goal init s → Unmasked s →
        BestSolution goal s ∧ Fetched goal s) ∧
    ∀ s : (centralized W).Scored, ((centralized W).scored model goal kind).Reachable s →
      s.outline.centerPhase = .finished → Improves goal init s →
        (BestSolution goal s ∧ Fetched goal s ↔
          (∀ w, shouldUpdate goal s.scores.globalScore (s.scores.worker w).manager.score = false) ∧
            Unmasked s) := by
  have hfetch : ∀ s : (centralized W).Scored,
      ((centralized W).scored model goal kind).Reachable s →
      s.outline.centerPhase = .finished → BestSolution goal s → (Fetched goal s ↔ Unmasked s) := by
    intro s h hfinished hbest
    have hinv := invariant_of_reachable hinit h
    exact fetched_iff (hinv.heard hfinished) hbest (hinv.globalScore_number hbest)
      hinv.sound.packets
  constructor
  · intro s h hfinished himproves hunmasked
    have hinv := invariant_of_reachable hinit h.reachable
    have hsettled := settled_of_reachable hinit (fun _ _ hp => Or.inr hp) h
    have hbest := hinv.bestSolution_of_settled hfinished himproves
      (hinv.settled (by simp [hfinished]) hsettled)
    exact ⟨hbest, (hfetch s h.reachable hfinished hbest).mpr hunmasked⟩
  · intro s h hfinished himproves
    have hinv := invariant_of_reachable hinit h
    constructor
    · rintro ⟨hbest, hfetched⟩
      exact ⟨hinv.settled_of_optimal (by simp [hfinished]) hbest.optimal,
        (hfetch s h hfinished hbest).mp hfetched⟩
    · rintro ⟨hsettled, hunmasked⟩
      have hbest := hinv.bestSolution_of_settled hfinished himproves hsettled
      exact ⟨hbest, (hfetch s h hfinished hbest).mpr hunmasked⟩

def centralStart : (centralized .pair).Scored :=
  beforeRun (Centralized.sendSeed ⟨[7], 3⟩) .LP64 .MAXIMISE .I32 scores_pair

theorem initial_centralStart :
    ((centralized .pair).scored .LP64 .MAXIMISE .I32).initial centralStart := by
  apply initial_beforeRun
  exact ⟨_, rfl⟩

/-- The end of a run after the funnel's loop, with the final report of the only worker. -/
def ending (r : Report) : List (centralized .pair).ScoredEvent :=
  let w := World.firstWorker World.pair
  [.process (Centralized.Event.leaveFunnel w),
    .process (Centralized.Event.center (.acknowledgement w) []),
    .process (Centralized.Event.processTermination w),
    .process (Centralized.Event.sendFinalSolution w r), .process Centralized.Event.centerBarrier,
    .process (Centralized.Event.receiveSolutionFrom w (.report r))]

/-- The only worker polls, improves its score, and polls again. -/
def earlyOffer : List (centralized .pair).ScoredEvent :=
  let w := World.firstWorker World.pair
  let c := World.center World.pair
  [.process (Centralized.Event.processMessage w c ⟨[7], 3⟩), .worker w (.poll false),
    .worker w .compare, .worker w (.offer (.makeInt 5) [9]), .worker w .finishTask,
    .worker w .continueLoop, .worker w (.poll false), .worker w .compare, .consumeScoreFlag w,
    .process (Centralized.Event.center .scoreProposal []), .worker w .finishLoop] ++
    ending (some ⟨.makeInt 5, [9]⟩)

/-- The only worker improves its score after the last poll of its loop. -/
def unproposed : List (centralized .pair).ScoredEvent :=
  let w := World.firstWorker World.pair
  let c := World.center World.pair
  [.process (Centralized.Event.processMessage w c ⟨[7], 3⟩), .worker w (.poll false),
    .worker w .compare, .worker w (.offer (.makeInt 5) [9]), .worker w .finishTask,
    .worker w .finishLoop] ++ ending (some ⟨.makeInt 5, [9]⟩)

theorem earlyOffer_runs : (((centralized .pair).scored .LP64 .MAXIMISE .I32).run earlyOffer
    centralStart).isSome = true := by
  decide

theorem unproposed_runs : (((centralized .pair).scored .LP64 .MAXIMISE .I32).run unproposed
    centralStart).isSome = true := by
  decide

theorem centralized_bestSolution_earlyOffer :
    Fetched .MAXIMISE ((((centralized .pair).scored .LP64 .MAXIMISE .I32).run earlyOffer
      centralStart).get earlyOffer_runs) := by
  have hinit : getDefaultScore .LP64 .MAXIMISE .I32 = some (.makeInt 0x80000000) := rfl
  have hstart : ((centralized .pair).scored .LP64 .MAXIMISE .I32).ReachableWhere
      (Proposed .MAXIMISE) centralStart := .start initial_centralStart
  have hrun := hstart.run (Option.some_get earlyOffer_runs).symm (by decide)
  refine ((centralized_bestSolution hinit).1 _ hrun (by decide)
    ⟨(World.firstWorker _, ⟨.makeInt 5, [9]⟩), by decide, by decide⟩ ?_).2
  intro w _ hplaceholder
  exact absurd hplaceholder (by decide)

/-- The score 5 is offered, and the center ends with the score it started with. -/
theorem centralized_score_lost :
    ∃ s : (centralized .pair).Scored,
      ((centralized .pair).scored .LP64 .MAXIMISE .I32).Reachable s ∧
      s.outline.centerPhase = .finished ∧ Improves .MAXIMISE (.makeInt 0x80000000) s ∧
      s.scores.globalScore = .makeInt 0x80000000 ∧ ¬ BestSolution .MAXIMISE s := by
  have hstart : ((centralized .pair).scored .LP64 .MAXIMISE .I32).Reachable centralStart :=
    .start initial_centralStart
  refine ⟨(((centralized .pair).scored .LP64 .MAXIMISE .I32).run unproposed centralStart).get
    unproposed_runs, hstart.run (Option.some_get _).symm, by decide, ?_, by decide, ?_⟩
  · exact ⟨(World.firstWorker _, ⟨.makeInt 5, [9]⟩), by decide, by decide⟩
  · intro hbest
    have hoffered := hbest.optimal (World.firstWorker _, ⟨.makeInt 5, [9]⟩) (by decide)
    exact absurd hoffered (by decide)

end Scheduler

end Gempba
