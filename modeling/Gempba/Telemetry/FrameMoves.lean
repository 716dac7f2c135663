import Gempba.Telemetry.Collection

/-!
# What a step does to the frames of a rank

A step samples a frame of a rank, delivers or receives one, or keeps all that
concerns the frames of the rank.
-/

namespace Gempba.Telemetry

set_option autoImplicit false

/-- The rank has sent its final frame. -/
def RankPoint.stopped : RankPoint → Bool
  | .poll closing _ => closing
  | .await | .closed => true
  | .idle | .controls | .exchange | .emit _ | .fanOut | .sending _ | .drain => false

namespace Hub

theorem readControl_seqNo (m : ControlMsg) (h : Hub) : (h.readControl m).seqNo = h.seqNo := by
  obtain ⟨kind, value⟩ := m
  cases kind <;> rfl

theorem readControl_snapshotAnswered (m : ControlMsg) (h : Hub) :
    (h.readControl m).snapshotAnswered = h.snapshotAnswered := by
  obtain ⟨kind, value⟩ := m
  cases kind <;> rfl

theorem applied_seqNo {kind : ControlKind} {value : UInt32} {now : ℕ} {h : Hub}
    (hkind : kind ≠ .SNAPSHOT) :
    (h.applyControlFromClient kind value now).1.seqNo = h.seqNo ∧
      (h.applyControlFromClient kind value now).1.snapshotAnswered = h.snapshotAnswered := by
  cases kind with
  | SNAPSHOT => exact absurd rfl hkind
  | SET_INTERVAL_MS | PAUSE | RESUME | UNSPECIFIED | BE_NODE_SENTINEL => exact ⟨rfl, rfl⟩

end Hub

namespace Rank

structure Kept (x y : Rank) : Prop where
  links : y.links = x.links
  latestWorker : y.latestWorker = x.latestWorker
  published : y.published = x.published
  seqNo : y.hub.seqNo = x.hub.seqNo
  snapshotAnswered : y.hub.snapshotAnswered = x.hub.snapshotAnswered
  stopped : y.point.stopped = x.point.stopped

theorem Kept.refl (x : Rank) : Kept x x := ⟨rfl, rfl, rfl, rfl, rfl, rfl⟩

theorem kept_setPoint {x : Rank} {p : RankPoint} (h : p.stopped = x.point.stopped) :
    Kept x (x.setPoint p) := ⟨rfl, rfl, rfl, rfl, rfl, h⟩

theorem kept_setHub {x : Rank} {h : Hub} (hseqNo : h.seqNo = x.hub.seqNo)
    (hanswered : h.snapshotAnswered = x.hub.snapshotAnswered) : Kept x (x.setHub h) :=
  ⟨rfl, rfl, rfl, hseqNo, hanswered, rfl⟩

theorem kept_deliverControl {x y : Rank} (h : x.deliverControl = some y) : Kept x y := by
  rw [deliverControl] at h
  split at h
  · cases h
    exact ⟨rfl, rfl, rfl, rfl, rfl, rfl⟩
  · cases h

theorem kept_tryRecvControl {x : Rank} (h : x.point = .controls) : Kept x x.tryRecvControl := by
  rw [tryRecvControl]
  split
  · exact ⟨rfl, rfl, rfl, Hub.readControl_seqNo .., Hub.readControl_snapshotAnswered .., rfl⟩
  · exact kept_setPoint (congrArg RankPoint.stopped h).symm

/-- The rank after the emission of a tick. -/
def emitted (workerId : UInt32) (snapshot : UInt32) (now : ℕ) (measured : WorkerFrame)
    (accepted : ℕ) (x : Rank) : Rank :=
  ((x.setHub (x.hub.emit snapshot now)).sample workerId measured .WORKER_FRAME accepted).setPoint
    .fanOut

/-- The rank after its final frame. -/
def finished (workerId : UInt32) (measured : WorkerFrame) (accepted : ℕ) (p : RankPoint)
    (x : Rank) : Rank :=
  ((x.setHub { x.hub with seqNo := x.hub.seqNo + 1 }).sample workerId measured
    .FINAL_WORKER_FRAME accepted).setPoint p

end Rank

namespace Collection

variable {n : ℕ} {s t : Collection n} {r : Fin (n + 1)}

/-- The cases of a step, as seen from the frames of rank `r`. -/
inductive FrameMove (e : CollectionEvent n) (s t : Collection n) (r : Fin (n + 1)) : Prop
  | kept (h : Rank.Kept (s.rank r) (t.rank r))
  | emitted (snapshot : UInt32) (now : ℕ) (measured : WorkerFrame) (he : e = .emit r now measured)
    (hpoint : (s.rank r).point = .emit snapshot) (hemits : (s.rank r).hub.Emits snapshot now)
    (h : t.rank r = (s.rank r).emitted (workerId r) snapshot now measured s.accepted)
  | finished (measured : WorkerFrame) (p : RankPoint) (he : e = .shutdown r measured)
    (hpoint : (s.rank r).point = .idle) (hp : p.stopped = true)
    (h : t.rank r = (s.rank r).finished (workerId r) measured s.accepted p)
  | delivered (tag : FrameTag) (h : (s.rank r).deliver tag = some (t.rank r))
  | received (closing : Bool) (tag : FrameTag) (he : e = .receive r)
    (hpoint : (s.rank 0).point = .poll closing tag)
    (h : (s.rank r).receive tag = some (t.rank r))

theorem rank_set_self (x : Rank) : (s.set r x).rank r = x := Function.update_self ..

theorem rank_set_ne {r' : Fin (n + 1)} (h : r' ≠ r) (x : Rank) :
    (s.set r x).rank r' = s.rank r' := Function.update_of_ne h ..

theorem rank_sendToOthers_self (m : ControlMsg) (pending : List ControlMsg) :
    (s.sendToOthers r m pending).rank r = (s.rank r).setPoint (.sending pending) := if_pos rfl

theorem rank_sendToOthers_ne {r' : Fin (n + 1)} (h : r' ≠ r) (m : ControlMsg)
    (pending : List ControlMsg) :
    (s.sendToOthers r m pending).rank r' =
      { s.rank r' with channel := (s.rank r').channel ++ [m] } := if_neg h

theorem kept_set {x : Rank} (h : Rank.Kept (s.rank r) x) (r' : Fin (n + 1)) :
    Rank.Kept (s.rank r') ((s.set r x).rank r') := by
  obtain rfl | hne := eq_or_ne r' r
  · rw [rank_set_self]
    exact h
  · rw [rank_set_ne hne]
    exact .refl _

theorem kept_point {p : RankPoint} (h : p.stopped = (s.rank r).point.stopped) (r' : Fin (n + 1)) :
    Rank.Kept (s.rank r') ((s.setPoint r p).rank r') :=
  kept_set (Rank.kept_setPoint h) r'

theorem kept_hub {h : Hub} (hseqNo : h.seqNo = (s.rank r).hub.seqNo)
    (hanswered : h.snapshotAnswered = (s.rank r).hub.snapshotAnswered) (r' : Fin (n + 1)) :
    Rank.Kept (s.rank r') ((s.setHub r h).rank r') :=
  kept_set (Rank.kept_setHub hseqNo hanswered) r'

theorem kept_store {h : Hub} {p : ClientPoint} (hseqNo : h.seqNo = (s.rank 0).hub.seqNo)
    (hanswered : h.snapshotAnswered = (s.rank 0).hub.snapshotAnswered) (r : Fin (n + 1)) :
    Rank.Kept (s.rank r) ((s.store h p).rank r) :=
  kept_hub hseqNo hanswered r

theorem kept_applyControlFromClient {kind : ControlKind} {value : UInt32} {now : ℕ}
    (h : s.applyControlFromClient kind value now = .moved t) (r : Fin (n + 1)) :
    Rank.Kept (s.rank r) (t.rank r) := by
  rw [applyControlFromClient] at h
  split at h
  · cases h
  · split at h
    · split at h
      · cases h
        exact .refl _
      · cases h
        exact .refl _
    · rename_i hkind
      cases h
      exact kept_store (Hub.applied_seqNo hkind).1 (Hub.applied_seqNo hkind).2 r

theorem kept_clientStep (h : s.clientStep = .moved t) (r : Fin (n + 1)) :
    Rank.Kept (s.rank r) (t.rank r) := by
  rw [clientStep] at h
  split at h
  · cases h
  all_goals
    cases h
    apply kept_store
    · rfl
    · rfl

theorem kept_sendControl {r' : Fin (n + 1)} (h : s.sendControl r' = .moved t)
    (r : Fin (n + 1)) : Rank.Kept (s.rank r) (t.rank r) := by
  rw [sendControl] at h
  split at h
  · rename_i m pending hpoint
    cases h
    obtain rfl | hne := eq_or_ne r r'
    · rw [rank_sendToOthers_self]
      exact Rank.kept_setPoint (congrArg RankPoint.stopped hpoint).symm
    · rw [rank_sendToOthers_ne hne]
      exact ⟨rfl, rfl, rfl, rfl, rfl, rfl⟩
  · rename_i hpoint
    cases h
    apply kept_point
    rw [hpoint]
    split <;> rfl
  · cases h

/-- A step that leaves its point for another where the rank runs on. -/
theorem kept_of_point {p q : RankPoint} {r' : Fin (n + 1)} (hp : (s.rank r').point = p)
    (hq : q.stopped = p.stopped) (r : Fin (n + 1)) :
    Rank.Kept (s.rank r) ((s.setPoint r' q).rank r) :=
  kept_point (hq.trans (congrArg RankPoint.stopped hp.symm)) r

theorem update_eq_moved {x : Option Rank} (h : s.update r x = .moved t) :
    x = some (t.rank r) ∧ ∀ r', r' ≠ r → t.rank r' = s.rank r' := by
  cases x with
  | none => cases h
  | some x =>
    cases h
    rw [rank_set_self]
    exact ⟨rfl, fun r' hne => rank_set_ne hne x⟩

/-- A step of rank `r'` alone, seen from rank `r`. -/
theorem frameMove_of_update {e : CollectionEvent n} {r' : Fin (n + 1)} {x : Option Rank}
    (h : s.update r' x = .moved t) (hself : x = some (t.rank r') → FrameMove e s t r') :
    FrameMove e s t r := by
  obtain ⟨hx, hothers⟩ := update_eq_moved h
  obtain rfl | hne := eq_or_ne r r'
  · exact hself hx
  · apply FrameMove.kept
    rw [hothers r hne]
    exact .refl _

theorem frameMove (e : CollectionEvent n) (h : step e s = .moved t) (r : Fin (n + 1)) :
    FrameMove e s t r := by
  cases e with
  | setIntervalMs r' intervalMs =>
    cases h
    apply FrameMove.kept
    apply kept_hub
    · rfl
    · rfl
  | applyControlFromClient kind value now => exact .kept (kept_applyControlFromClient h r)
  | client => exact .kept (kept_clientStep h r)
  | deliverControl r' =>
    exact frameMove_of_update h fun hx => .kept (Rank.kept_deliverControl hx)
  | tickIfDue r' =>
    rw [step, tickIfDue] at h
    split at h
    · rename_i hidle
      cases h
      exact .kept (kept_of_point hidle (by rfl) r)
    · cases h
  | tryRecvControl r' =>
    rw [step, tryRecvControl] at h
    split at h
    · rename_i hcontrols
      cases h
      exact .kept (kept_set (Rank.kept_tryRecvControl hcontrols) r)
    · cases h
  | exchangeDue r' =>
    rw [step, exchangeDue] at h
    split at h
    · rename_i hexchange
      cases h
      refine .kept (kept_set ?_ r)
      exact ⟨rfl, rfl, rfl, rfl, rfl, (congrArg RankPoint.stopped hexchange).symm⟩
    · cases h
  | emit r' now measured =>
    rw [step, emit] at h
    split at h
    · rename_i snapshot hemit
      split at h
      · rename_i hemits
        cases h
        obtain rfl | hne := eq_or_ne r r'
        · exact .emitted snapshot now measured rfl hemit hemits (rank_set_self _)
        · apply FrameMove.kept
          rw [rank_set_ne hne]
          exact .refl _
      · cases h
        exact .kept (kept_of_point hemit (by rfl) r)
    · cases h
  | swapFanout r' =>
    rw [step, swapFanout] at h
    split at h
    · rename_i hfanOut
      cases h
      refine .kept (kept_set ?_ r)
      exact ⟨rfl, rfl, rfl, rfl, rfl, (congrArg RankPoint.stopped hfanOut.1).symm⟩
    · cases h
  | sendControl r' => exact .kept (kept_sendControl h r)
  | drainInboundFrames now =>
    rw [step, drainInboundFrames] at h
    split at h
    · rename_i hdrain
      split at h
      · cases h
        exact .kept (kept_of_point hdrain (by rfl) r)
      · cases h
        exact .kept (kept_of_point hdrain (by rfl) r)
    · cases h
  | deliver r' tag => exact frameMove_of_update h fun hx => .delivered tag hx
  | receive r' =>
    rw [step, receive] at h
    split at h
    · rename_i closing hpoll
      apply frameMove_of_update h
      intro hx
      exact .received closing .WORKER_FRAME rfl hpoll hx
    · rename_i closing hpoll
      obtain ⟨u, hu, rfl⟩ := Transition.Outcome.map_eq_moved.mp h
      obtain ⟨hx, hothers⟩ := update_eq_moved hu
      obtain rfl | hne := eq_or_ne r r'
      · exact .received closing .FINAL_WORKER_FRAME rfl hpoll hx
      · apply FrameMove.kept
        show Rank.Kept (s.rank r) (u.rank r)
        rw [hothers r hne]
        exact .refl _
    · cases h
  | probe =>
    rw [step, probe] at h
    split at h
    · rename_i closing hpoll
      split at h
      · cases h
        exact .kept (kept_of_point hpoll (by rfl) r)
      · cases h
    · rename_i closing hpoll
      split at h
      · cases h
        refine .kept (kept_of_point hpoll ?_ r)
        cases closing <;> rfl
      · cases h
    · cases h
  | shutdown r' measured =>
    rw [step, shutdown] at h
    split at h
    · rename_i hidle
      cases h
      obtain rfl | hne := eq_or_ne r r'
      · refine .finished measured _ rfl hidle ?_ (rank_set_self _)
        split <;> rfl
      · apply FrameMove.kept
        rw [rank_set_ne hne]
        exact .refl _
    · cases h
  | await expired =>
    rw [step, await] at h
    split at h
    · rename_i hawait
      split at h
      · cases h
        exact .kept (kept_of_point hawait (by rfl) r)
      · cases h
        exact .kept (kept_of_point hawait (by rfl) r)
    · cases h

end Collection

end Gempba.Telemetry
