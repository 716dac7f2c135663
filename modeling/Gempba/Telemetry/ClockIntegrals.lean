import Gempba.Library.Timeline
import Gempba.Telemetry.SchedulerClock

/-!
# The times of the scheduler clock are integrals

What a rank does at a time is read off the events up to then. The clock's
running, waiting, available and coordinator-full times are the integrals of
these signals, whatever the order of its events, and its assignment latencies
those of the acceptances that follow an assignment.
-/

namespace Gempba.Telemetry

set_option autoImplicit false

open Timeline

/-! Signals of a history, read from its newest event on. -/

def inRun : List ClockEvent → Bool
  | [] => false
  | .runStart :: _ => true
  | .runEnd :: _ => false
  | _ :: past => inRun past

/-- The phase of the last worker event since the last start of a run. -/
def lastWorkerEvent : List ClockEvent → Phase
  | [] => .NONE
  | .runStart :: _ => .NONE
  | .workerWaiting :: _ => .WAITING
  | .workerRunning :: _ => .RUNNING
  | _ :: past => lastWorkerEvent past

/-- Whether the last mark set during a run says that the coordinator is full. -/
def markedFull : List ClockEvent → Bool
  | [] => false
  | .coordinatorFull :: past => if inRun past then true else markedFull past
  | .coordinatorFree :: past => if inRun past then false else markedFull past
  | _ :: past => markedFull past

/-- The available ranks and the queue as last recorded during a run. -/
def lastQueue : List ClockEvent → UInt32 × Bool
  | [] => (0, true)
  | .coordinatorQueue availableRanks queueEmpty :: past =>
    if inRun past then (availableRanks, queueEmpty) else lastQueue past
  | _ :: past => lastQueue past

inductive Meter where
  | running | waiting | available | full
  deriving DecidableEq, Repr

namespace Meter

def level : Meter → List ClockEvent → ℕ
  | .running, past => if lastWorkerEvent past = .RUNNING then 1 else 0
  | .waiting, past => if lastWorkerEvent past = .WAITING then 1 else 0
  | .available, past => if (lastQueue past).2 then (lastQueue past).1.toNat else 0
  | .full, past => if markedFull past then 1 else 0

/-- What the meter integrates. -/
def signal (m : Meter) (past : List ClockEvent) : ℕ := if inRun past then m.level past else 0

/-- The total of the clock without the open interval. -/
def total : Meter → SchedulerClock → UInt64
  | .running, c => c.running
  | .waiting, c => c.waiting
  | .available, c => c.availableQueueEmpty
  | .full, c => c.coordinatorFullTime

def gain : Meter → SchedulerClock → UInt64
  | .running, c => if c.phase = .RUNNING then 1 else 0
  | .waiting, c => if c.phase = .WAITING then 1 else 0
  | .available, c => if c.queueEmpty then c.availableRanks else 0
  | .full, c => if c.coordinatorFull then 1 else 0

def rate (m : Meter) (c : SchedulerClock) : UInt64 := if c.inRun then m.gain c else 0

/-- The total with the open interval. -/
def reading (m : Meter) (t : UInt64) (c : SchedulerClock) : UInt64 :=
  m.total c + m.rate c * (t - c.since)

variable {m : Meter} {c c' : SchedulerClock} {now t : UInt64}

theorem add_ite {p : Prop} [Decidable p] (a b d : UInt64) :
    (if p then a + b * d else a) = a + (if p then b else 0) * d := by
  split
  · rfl
  · rw [UInt64.zero_mul, UInt64.add_zero]

theorem total_accrue (h : c.inRun = true) : m.total (c.accrue now) = m.reading now c := by
  rw [reading, rate, if_pos h]
  cases m with
  | running =>
    rw [gain, ← add_ite, UInt64.one_mul]
    rfl
  | waiting =>
    rw [gain, ← add_ite, UInt64.one_mul]
    rfl
  | available =>
    rw [gain, ← add_ite]
    rfl
  | full =>
    rw [gain, ← add_ite, UInt64.one_mul]
    rfl

theorem reading_of_not_inRun (h : c.inRun = false) : m.reading t c = m.total c := by
  rw [reading, rate, h, if_neg Bool.false_ne_true, UInt64.zero_mul, UInt64.add_zero]

/-- What an event can do to a total: settle it at its time, or leave it to grow as before. -/
def Settles (m : Meter) (now : UInt64) (c c' : SchedulerClock) : Prop :=
  (m.total c' = m.reading now c ∧ c'.since = now) ∨
    (m.total c' = m.total c ∧ c'.since = c.since ∧ m.rate c' = m.rate c)

theorem Settles.reading (h : m.Settles now c c') :
    m.reading t c' = m.reading now c + m.rate c' * (t - now) := by
  obtain ⟨htotal, hsince⟩ | ⟨htotal, hsince, hrate⟩ := h
  · rw [Meter.reading, htotal, hsince]
  · rw [Meter.reading, Meter.reading, htotal, hsince, hrate]
    grind

theorem Settles.refl : m.Settles now c c := Or.inr ⟨rfl, rfl, rfl⟩

/-- The totals and the stamp are those of an accrual. -/
theorem Settles.of_accrue (h : c.inRun = true) (htotal : m.total c' = m.total (c.accrue now))
    (hsince : c'.since = now) : m.Settles now c c' :=
  Or.inl ⟨htotal.trans (total_accrue h), hsince⟩

theorem settles_record (e : ClockEvent) (h : e = .runStart → c.inRun = false) :
    m.Settles now c (c.record now e) := by
  cases e with
  | runStart =>
    refine Or.inl ⟨?_, rfl⟩
    rw [reading_of_not_inRun (h rfl)]
    cases m <;> rfl
  | runEnd =>
    rw [SchedulerClock.record, SchedulerClock.onRunEnd]
    split
    · rename_i hrun
      exact .of_accrue hrun (by cases m <;> rfl) rfl
    · exact .refl
  | workerWaiting =>
    rw [SchedulerClock.record, SchedulerClock.onWorkerWaiting]
    split
    · rename_i hrun
      exact .of_accrue hrun (by cases m <;> rfl) rfl
    · exact .refl
  | workerRunning =>
    rw [SchedulerClock.record, SchedulerClock.onWorkerRunning]
    split
    · rename_i hrun
      exact .of_accrue hrun (by cases m <;> rfl) rfl
    · exact .refl
  | coordinatorQueue availableRanks queueEmpty =>
    rw [SchedulerClock.record, SchedulerClock.onCoordinatorQueue]
    split
    · rename_i hrun
      exact .of_accrue hrun (by cases m <;> rfl) rfl
    · exact .refl
  | coordinatorFull =>
    rw [SchedulerClock.record, SchedulerClock.onCoordinatorFull]
    split
    · exact .refl
    · rename_i hrun
      exact .of_accrue (by simpa using (not_or.mp hrun).1) (by cases m <;> rfl) rfl
  | coordinatorFree =>
    rw [SchedulerClock.record, SchedulerClock.onCoordinatorFree]
    split
    · exact .refl
    · rename_i hrun
      exact .of_accrue (by simpa using (not_or.mp hrun).1) (by cases m <;> rfl) rfl
  | globalScoreImproved =>
    rw [SchedulerClock.record, SchedulerClock.onGlobalScoreImproved]
    split
    · exact Or.inr ⟨by cases m <;> rfl, rfl, by cases m <;> rfl⟩
    · exact .refl
  | assignment rank =>
    rw [SchedulerClock.record, SchedulerClock.onAssignment]
    split
    · exact Or.inr ⟨by cases m <;> rfl, rfl, by cases m <;> rfl⟩
    · exact .refl
  | assignmentAccepted rank =>
    rw [SchedulerClock.record, SchedulerClock.onAssignmentAccepted]
    split
    · exact .refl
    · exact Or.inr ⟨by cases m <;> rfl, rfl, by cases m <;> rfl⟩

end Meter

/-- The state of the clock is that of the events so far. -/
structure Tracks (past : List ClockEvent) (c : SchedulerClock) : Prop where
  active : c.inRun = inRun past
  phase : c.phase = if inRun past then lastWorkerEvent past else .NONE
  full : c.coordinatorFull = markedFull past
  queue : c.availableRanks = (lastQueue past).1.toUInt64 ∧ c.queueEmpty = (lastQueue past).2

theorem Tracks.rate {past : List ClockEvent} {c : SchedulerClock} (h : Tracks past c) (m : Meter) :
    m.rate c = UInt64.ofNat (m.signal past) := by
  rw [Meter.rate, Meter.signal, h.active]
  cases hrun : inRun past with
  | false => rfl
  | true =>
    have hphase : c.phase = lastWorkerEvent past := h.phase.trans (if_pos hrun)
    rw [if_pos rfl, if_pos rfl]
    cases m with
    | running =>
      rw [Meter.gain, Meter.level, hphase]
      split <;> rfl
    | waiting =>
      rw [Meter.gain, Meter.level, hphase]
      split <;> rfl
    | available =>
      rw [Meter.gain, Meter.level, h.queue.1, h.queue.2, ← UInt32.toNat_toUInt64]
      split
      · exact UInt64.ofNat_toNat.symm
      · rfl
    | full =>
      rw [Meter.gain, Meter.level, h.full]
      split <;> rfl

theorem Tracks.phase_of_inRun {past : List ClockEvent} {c : SchedulerClock} (h : Tracks past c)
    (hrun : c.inRun = true) : inRun past = true ∧ c.phase = lastWorkerEvent past := by
  have hpast : inRun past = true := h.active.symm.trans hrun
  exact ⟨hpast, h.phase.trans (if_pos hpast)⟩

theorem Tracks.phase_of_idle {past : List ClockEvent} {c : SchedulerClock} (h : Tracks past c)
    (hrun : ¬ c.inRun = true) : inRun past = false ∧ c.phase = .NONE := by
  have hpast : inRun past = false := h.active.symm.trans (Bool.eq_false_iff.mpr hrun)
  refine ⟨hpast, h.phase.trans ?_⟩
  rw [hpast]
  rfl

theorem Tracks.record {past : List ClockEvent} {c : SchedulerClock} (h : Tracks past c)
    (e : ClockEvent) (now : UInt64) (hstart : e = .runStart → c.inRun = false) :
    Tracks (e :: past) (c.record now e) := by
  cases e with
  | runStart =>
    have hidle : ¬ c.inRun = true := by
      rw [hstart rfl]
      exact Bool.false_ne_true
    exact ⟨rfl, (h.phase_of_idle hidle).2, h.full, h.queue⟩
  | runEnd =>
    rw [SchedulerClock.record, SchedulerClock.onRunEnd]
    split
    · exact ⟨rfl, rfl, h.full, h.queue⟩
    · rename_i hidle
      exact ⟨Bool.eq_false_iff.mpr hidle, (h.phase_of_idle hidle).2, h.full, h.queue⟩
  | workerWaiting =>
    rw [SchedulerClock.record, SchedulerClock.onWorkerWaiting]
    split
    · rename_i hrun
      exact ⟨h.active, (if_pos (h.phase_of_inRun hrun).1).symm, h.full, h.queue⟩
    · rename_i hidle
      obtain ⟨hpast, hphase⟩ := h.phase_of_idle hidle
      refine ⟨h.active, hphase.trans (if_neg ?_).symm, h.full, h.queue⟩
      exact Bool.eq_false_iff.mp hpast
  | workerRunning =>
    rw [SchedulerClock.record, SchedulerClock.onWorkerRunning]
    split
    · rename_i hrun
      exact ⟨h.active, (if_pos (h.phase_of_inRun hrun).1).symm, h.full, h.queue⟩
    · rename_i hidle
      obtain ⟨hpast, hphase⟩ := h.phase_of_idle hidle
      refine ⟨h.active, hphase.trans (if_neg ?_).symm, h.full, h.queue⟩
      exact Bool.eq_false_iff.mp hpast
  | coordinatorQueue availableRanks queueEmpty =>
    rw [SchedulerClock.record, SchedulerClock.onCoordinatorQueue]
    split
    · rename_i hrun
      refine ⟨h.active, h.phase, h.full, ?_⟩
      rw [lastQueue, if_pos (h.phase_of_inRun hrun).1]
      exact ⟨rfl, rfl⟩
    · rename_i hidle
      refine ⟨h.active, h.phase, h.full, ?_⟩
      rw [lastQueue, if_neg (Bool.eq_false_iff.mp (h.phase_of_idle hidle).1)]
      exact h.queue
  | coordinatorFull =>
    rw [SchedulerClock.record, SchedulerClock.onCoordinatorFull]
    split
    · rename_i hignored
      refine ⟨h.active, h.phase, ?_, h.queue⟩
      rw [markedFull]
      split
      · rename_i hpast
        obtain hidle | hfull := hignored
        · rw [h.active, hpast] at hidle
          cases hidle
        · exact hfull
      · exact h.full
    · rename_i hnew
      have hrun : c.inRun = true := Bool.not_eq_false _ ▸ (not_or.mp hnew).1
      exact ⟨h.active, h.phase, (if_pos (h.phase_of_inRun hrun).1).symm, h.queue⟩
  | coordinatorFree =>
    rw [SchedulerClock.record, SchedulerClock.onCoordinatorFree]
    split
    · rename_i hignored
      refine ⟨h.active, h.phase, ?_, h.queue⟩
      rw [markedFull]
      split
      · rename_i hpast
        obtain hidle | hfree := hignored
        · rw [h.active, hpast] at hidle
          cases hidle
        · exact hfree
      · exact h.full
    · rename_i hnew
      have hrun : c.inRun = true := Bool.not_eq_false _ ▸ (not_or.mp hnew).1
      exact ⟨h.active, h.phase, (if_pos (h.phase_of_inRun hrun).1).symm, h.queue⟩
  | globalScoreImproved =>
    rw [SchedulerClock.record, SchedulerClock.onGlobalScoreImproved]
    split <;> exact ⟨h.active, h.phase, h.full, h.queue⟩
  | assignment rank =>
    rw [SchedulerClock.record, SchedulerClock.onAssignment]
    split <;> exact ⟨h.active, h.phase, h.full, h.queue⟩
  | assignmentAccepted rank =>
    rw [SchedulerClock.record, SchedulerClock.onAssignmentAccepted]
    split <;> exact ⟨h.active, h.phase, h.full, h.queue⟩

/-- Starts and ends of runs alternate. -/
def Alternates : List ClockEvent → Prop
  | [] => True
  | .runStart :: past => inRun past = false ∧ Alternates past
  | .runEnd :: past => inRun past = true ∧ Alternates past
  | _ :: past => Alternates past

theorem Alternates.tail {e : ClockEvent} {past : List ClockEvent} (h : Alternates (e :: past)) :
    Alternates past := by
  cases e with
  | runStart | runEnd => exact h.2
  | workerWaiting | workerRunning | assignment | assignmentAccepted | coordinatorQueue
  | coordinatorFull | globalScoreImproved | coordinatorFree => exact h

def times (history : List (ClockEvent × UInt64)) : List (ClockEvent × ℕ) :=
  history.map fun e => (e.1, e.2.toNat)

theorem events_times (history : List (ClockEvent × UInt64)) :
    events (times history) = history.map Prod.fst := by
  rw [events, times, List.map_map]
  rfl

theorem tracks_after {history : List (ClockEvent × UInt64)}
    (h : Alternates (history.map Prod.fst)) :
    Tracks (history.map Prod.fst) (SchedulerClock.after history) := by
  induction history with
  | nil => exact ⟨rfl, rfl, rfl, rfl, rfl⟩
  | cons e history ih =>
    obtain ⟨e, now⟩ := e
    have htracks := ih (Alternates.tail h)
    apply htracks.record e now
    intro he
    rw [htracks.active]
    cases he
    exact h.1

/-- Each meter reads the integral of its signal, as far as 64 bits go. -/
theorem reading_after {history : List (ClockEvent × UInt64)} (m : Meter) {t : UInt64}
    (hordered : Ordered (times history)) (halternates : Alternates (history.map Prod.fst))
    (ht : StampedBy (times history) t.toNat) :
    m.reading t (SchedulerClock.after history) =
      UInt64.ofNat (integral m.signal (times history) t.toNat) := by
  induction history generalizing t with
  | nil =>
    have hzero : integral m.signal (times []) t.toNat = 0 := by
      apply Finset.sum_eq_zero
      intro x _
      rfl
    have hidle : (SchedulerClock.after []).inRun = false := rfl
    rw [hzero, Meter.reading_of_not_inRun hidle]
    cases m <;> rfl
  | cons e history ih =>
    obtain ⟨e, now⟩ := e
    have htracks := tracks_after (Alternates.tail halternates)
    have htracks' := tracks_after halternates
    have hstart : e = .runStart → (SchedulerClock.after history).inRun = false := by
      intro he
      rw [htracks.active]
      cases he
      exact halternates.1
    have hnow : StampedBy (times history) now.toNat := hordered.1
    have hle : now.toNat ≤ t.toNat := ht (e, now.toNat) List.mem_cons_self
    have hsub : UInt64.ofNat (t.toNat - now.toNat) = t - now := by
      rw [UInt64.ofNat_sub hle, UInt64.ofNat_toNat, UInt64.ofNat_toNat]
    have hsettles : m.Settles now (SchedulerClock.after history)
        (SchedulerClock.after ((e, now) :: history)) := Meter.settles_record e hstart
    have hcons : integral m.signal (times ((e, now) :: history)) t.toNat =
        integral m.signal (times history) now.toNat +
          (t.toNat - now.toNat) * m.signal (e :: history.map Prod.fst) := by
      rw [← events_times]
      exact integral_cons hnow hle
    calc m.reading t (SchedulerClock.after ((e, now) :: history))
        = m.reading now (SchedulerClock.after history) +
            m.rate (SchedulerClock.after ((e, now) :: history)) * (t - now) := hsettles.reading
      _ = UInt64.ofNat (integral m.signal (times history) now.toNat) +
            UInt64.ofNat (m.signal (e :: history.map Prod.fst)) * (t - now) := by
          rw [ih hordered.2 (Alternates.tail halternates) hnow, htracks'.rate]
          rfl
      _ = UInt64.ofNat (integral m.signal (times ((e, now) :: history)) t.toNat) := by
          rw [hcons, UInt64.ofNat_add, UInt64.ofNat_mul, hsub, UInt64.mul_comm]

/-- The time of the latest assignment of a rank, unless it has been accepted since. -/
def openAssignment (rank : UInt32) : List (ClockEvent × UInt64) → Option UInt64
  | [] => none
  | (.assignment r, now) :: past => if r = rank then some now else openAssignment rank past
  | (.assignmentAccepted r, _) :: past => if r = rank then none else openAssignment rank past
  | _ :: past => openAssignment rank past

/-- The latencies of the acceptances that follow an open assignment. -/
def latencies : List (ClockEvent × UInt64) → List ℕ
  | [] => []
  | (.assignmentAccepted rank, now) :: past =>
    match openAssignment rank past with
    | some assigned => (now.toNat - assigned.toNat) :: latencies past
    | none => latencies past
  | _ :: past => latencies past

/-- The ranks fit the table. -/
def RanksFit (history : List (ClockEvent × UInt64)) : Prop :=
  ∀ rank now, (ClockEvent.assignment rank, now) ∈ history ∨
    (ClockEvent.assignmentAccepted rank, now) ∈ history → rank.toNat < MAX_WORKERS

/-- No assignment carries the time that marks a rank without one. -/
def AssignmentsMarked (history : List (ClockEvent × UInt64)) : Prop :=
  ∀ rank now, (ClockEvent.assignment rank, now) ∈ history → now ≠ UNASSIGNED

theorem exists_of_openAssignment {rank : UInt32} {history : List (ClockEvent × UInt64)}
    {assigned : UInt64} (h : openAssignment rank history = some assigned) :
    (ClockEvent.assignment rank, assigned) ∈ history := by
  fun_induction openAssignment rank history with
  | case1 => cases h
  | case2 now past =>
    cases h
    exact List.mem_cons_self
  | case3 r now past hne ih => exact List.mem_cons_of_mem _ (ih h)
  | case4 now past => cases h
  | case5 r now past hne ih => exact List.mem_cons_of_mem _ (ih h)
  | case6 e past hassign haccept ih => exact List.mem_cons_of_mem _ (ih h)

theorem toNat_max (a b : UInt64) : (max a b).toNat = max a.toNat b.toNat := by
  show (if a ≤ b then b else a).toNat = _
  split
  · rename_i hle
    exact (max_eq_right (UInt64.le_iff_toNat_le.mp hle)).symm
  · rename_i hle
    exact (max_eq_left (Nat.le_of_lt (UInt64.lt_iff_toNat_lt.mp
      (UInt64.not_le.mp hle)))).symm

/-- The table of assignments and the totals of their latencies. -/
structure Assigned (history : List (ClockEvent × UInt64)) (c : SchedulerClock) : Prop where
  slots : ∀ rank : UInt32, rank.toNat < MAX_WORKERS →
    c.assignedAt rank = (openAssignment rank history).getD UNASSIGNED
  total : c.assignLatencyTotal = UInt64.ofNat (latencies history).sum
  count : c.assignCount = UInt64.ofNat (latencies history).length
  longest : c.assignLatencyMax.toNat = (latencies history).foldr max 0

theorem Assigned.record {history : List (ClockEvent × UInt64)} {c : SchedulerClock}
    (h : Assigned history c) {e : ClockEvent} {now : UInt64} (hfit : RanksFit ((e, now) :: history))
    (hmarked : AssignmentsMarked history) (hstamps : ∀ e ∈ history, e.2 ≤ now) :
    Assigned ((e, now) :: history) (c.record now e) := by
  cases e with
  | runStart => exact ⟨h.slots, h.total, h.count, h.longest⟩
  | runEnd =>
    rw [SchedulerClock.record, SchedulerClock.onRunEnd]
    split <;> exact ⟨h.slots, h.total, h.count, h.longest⟩
  | workerWaiting =>
    rw [SchedulerClock.record, SchedulerClock.onWorkerWaiting]
    split <;> exact ⟨h.slots, h.total, h.count, h.longest⟩
  | workerRunning =>
    rw [SchedulerClock.record, SchedulerClock.onWorkerRunning]
    split <;> exact ⟨h.slots, h.total, h.count, h.longest⟩
  | coordinatorQueue availableRanks queueEmpty =>
    rw [SchedulerClock.record, SchedulerClock.onCoordinatorQueue]
    split <;> exact ⟨h.slots, h.total, h.count, h.longest⟩
  | coordinatorFull =>
    rw [SchedulerClock.record, SchedulerClock.onCoordinatorFull]
    split <;> exact ⟨h.slots, h.total, h.count, h.longest⟩
  | coordinatorFree =>
    rw [SchedulerClock.record, SchedulerClock.onCoordinatorFree]
    split <;> exact ⟨h.slots, h.total, h.count, h.longest⟩
  | globalScoreImproved =>
    rw [SchedulerClock.record, SchedulerClock.onGlobalScoreImproved]
    split <;> exact ⟨h.slots, h.total, h.count, h.longest⟩
  | assignment rank =>
    have hrank : rank.toNat < MAX_WORKERS := hfit rank now (Or.inl List.mem_cons_self)
    rw [SchedulerClock.record, SchedulerClock.onAssignment, if_pos hrank]
    refine ⟨?_, h.total, h.count, h.longest⟩
    intro r hr
    show Function.update c.assignedAt rank now r = _
    rw [openAssignment, Function.update_apply]
    obtain rfl | hne := eq_or_ne r rank
    · rw [if_pos rfl, if_pos rfl, Option.getD_some]
    · rw [if_neg hne, if_neg hne.symm]
      exact h.slots r hr
  | assignmentAccepted rank =>
    have hrank : rank.toNat < MAX_WORKERS := hfit rank now (Or.inr List.mem_cons_self)
    have hslot := h.slots rank hrank
    rw [SchedulerClock.record, SchedulerClock.onAssignmentAccepted]
    cases hopen : openAssignment rank history with
    | none =>
      rw [hopen, Option.getD_none] at hslot
      have hlatencies : latencies ((.assignmentAccepted rank, now) :: history) =
          latencies history := by rw [latencies, hopen]
      rw [if_pos (Or.inr hslot)]
      refine ⟨fun r hr => ?_, hlatencies ▸ h.total, hlatencies ▸ h.count, hlatencies ▸ h.longest⟩
      rw [openAssignment]
      obtain rfl | hne := eq_or_ne rank r
      · rw [if_pos rfl, Option.getD_none, hslot]
      · rw [if_neg hne]
        exact h.slots r hr
    | some assigned =>
      rw [hopen, Option.getD_some] at hslot
      have hmem := exists_of_openAssignment hopen
      have hne : assigned ≠ UNASSIGNED := hmarked rank assigned hmem
      have hle : assigned ≤ now := hstamps _ hmem
      have hlatencies : latencies ((.assignmentAccepted rank, now) :: history) =
          (now.toNat - assigned.toNat) :: latencies history := by rw [latencies, hopen]
      have hlatency : UInt64.ofNat (now.toNat - assigned.toNat) = now - assigned := by
        rw [UInt64.ofNat_sub (UInt64.le_iff_toNat_le.mp hle), UInt64.ofNat_toNat,
          UInt64.ofNat_toNat]
      have hskip : ¬ (MAX_WORKERS ≤ rank.toNat ∨ c.assignedAt rank = UNASSIGNED) := by
        rw [hslot]
        rintro (hbig | hun)
        · omega
        · exact hne hun
      rw [if_neg hskip, hslot]
      refine ⟨?_, ?_, ?_, ?_⟩
      · intro r hr
        show Function.update c.assignedAt rank UNASSIGNED r = _
        rw [openAssignment, Function.update_apply]
        obtain rfl | hne' := eq_or_ne r rank
        · rw [if_pos rfl, if_pos rfl, Option.getD_none]
        · rw [if_neg hne', if_neg hne'.symm]
          exact h.slots r hr
      · show c.assignLatencyTotal + (now - assigned) = _
        rw [hlatencies, List.sum_cons, UInt64.ofNat_add, hlatency, h.total, UInt64.add_comm]
      · show c.assignCount + 1 = _
        rw [hlatencies, List.length_cons, UInt64.ofNat_add, h.count]
        rfl
      · show (max c.assignLatencyMax (now - assigned)).toNat = _
        rw [hlatencies, List.foldr_cons, ← h.longest, toNat_max, max_comm,
          UInt64.toNat_sub_of_le _ _ hle]

theorem assigned_after {history : List (ClockEvent × UInt64)} (hordered : Ordered (times history))
    (hfit : RanksFit history) (hmarked : AssignmentsMarked history) :
    Assigned history (SchedulerClock.after history) := by
  induction history with
  | nil => exact ⟨fun _ _ => rfl, rfl, rfl, rfl⟩
  | cons e history ih =>
    have hmarked' : AssignmentsMarked history := fun rank now h =>
      hmarked rank now (List.mem_cons_of_mem e h)
    have htail : Assigned history (SchedulerClock.after history) := by
      apply ih hordered.2 _ hmarked'
      intro rank now h
      exact hfit rank now (h.imp (List.mem_cons_of_mem e) (List.mem_cons_of_mem e))
    apply htail.record hfit hmarked'
    intro e' he'
    exact hordered.1 (e'.1, e'.2.toNat) (List.mem_map_of_mem he')

/-- What the schedulers record. -/
structure Recorded (history : List (ClockEvent × UInt64)) : Prop where
  ordered : Ordered (times history)
  alternates : Alternates (history.map Prod.fst)
  ranksFit : RanksFit history

/-- The sums fit 64 bits. -/
structure SumsFit (history : List (ClockEvent × UInt64)) (t : UInt64) : Prop where
  available : integral Meter.available.signal (times history) t.toNat < 2 ^ 64
  latency : (latencies history).sum < 2 ^ 64
  count : (latencies history).length < 2 ^ 64

/-- No time is below that of an earlier frame. -/
structure NoTimeDecreases (f f' : WorkerFrame) : Prop where
  running : f.schedRunningMicroseconds ≤ f'.schedRunningMicroseconds
  waiting : f.schedWaitingMicroseconds ≤ f'.schedWaitingMicroseconds
  full : f.coordinatorFullMicroseconds ≤ f'.coordinatorFullMicroseconds
  available : f.availableMicrosecondsQueueEmpty ≤ f'.availableMicrosecondsQueueEmpty
  latency : f.assignLatencyMicrosecondsTotal ≤ f'.assignLatencyMicrosecondsTotal
  count : f.assignCount ≤ f'.assignCount
  longest : f.assignLatencyMicrosecondsMax ≤ f'.assignLatencyMicrosecondsMax

/-- The frame has the integrals up to `t` and the latencies. -/
structure Integrates (history : List (ClockEvent × UInt64)) (t : UInt64) (f : WorkerFrame) :
    Prop where
  running : f.schedRunningMicroseconds.toNat =
    integral Meter.running.signal (times history) t.toNat
  waiting : f.schedWaitingMicroseconds.toNat =
    integral Meter.waiting.signal (times history) t.toNat
  full : f.coordinatorFullMicroseconds.toNat =
    integral Meter.full.signal (times history) t.toNat
  available : f.availableMicrosecondsQueueEmpty.toNat =
    integral Meter.available.signal (times history) t.toNat
  latency : f.assignLatencyMicrosecondsTotal.toNat = (latencies history).sum
  count : f.assignCount.toNat = (latencies history).length
  longest : f.assignLatencyMicrosecondsMax.toNat = (latencies history).foldr max 0

/-- Outside runs no signal has been open since the last event. -/
theorem Meter.reading_eq (m : Meter) (t : UInt64) (c : SchedulerClock) :
    m.reading t c = m.total c + m.gain c * if c.inRun then t - c.since else 0 := by
  rw [Meter.reading, Meter.rate]
  split
  · rfl
  · rw [UInt64.zero_mul, UInt64.mul_zero]

theorem ite_zero_mul {p : Prop} [Decidable p] (a d : UInt64) :
    (if p then a else 0) * d = if p then a * d else 0 := by
  split
  · rfl
  · exact UInt64.zero_mul

theorem fill_eq_readings (t : UInt64) (c : SchedulerClock) (frame : WorkerFrame) :
    (c.fill t frame).schedRunningMicroseconds = Meter.running.reading t c ∧
      (c.fill t frame).schedWaitingMicroseconds = Meter.waiting.reading t c ∧
      (c.fill t frame).coordinatorFullMicroseconds = Meter.full.reading t c ∧
      (c.fill t frame).availableMicrosecondsQueueEmpty = Meter.available.reading t c := by
  rw [Meter.reading_eq, Meter.reading_eq, Meter.reading_eq, Meter.reading_eq, Meter.gain,
    Meter.gain, Meter.gain, Meter.gain, ite_zero_mul, ite_zero_mul, ite_zero_mul, ite_zero_mul,
    UInt64.one_mul]
  exact ⟨rfl, rfl, rfl, rfl⟩

/-- A worker event since the last start of a run. -/
def workerSeen : List ClockEvent → Bool
  | [] => false
  | .runStart :: _ => false
  | .workerWaiting :: _ => true
  | .workerRunning :: _ => true
  | _ :: past => workerSeen past

def sinceWorkerEvent (past : List ClockEvent) : ℕ :=
  if inRun past = true ∧ workerSeen past = true then 1 else 0

theorem workerSeen_eq_false_iff (past : List ClockEvent) :
    workerSeen past = false ↔ lastWorkerEvent past = .NONE := by
  induction past with
  | nil => exact ⟨fun _ => rfl, fun _ => rfl⟩
  | cons e past ih =>
    cases e with
    | runStart => exact ⟨fun _ => rfl, fun _ => rfl⟩
    | workerWaiting | workerRunning => exact ⟨fun h => Bool.noConfusion h, fun h => by cases h⟩
    | runEnd | assignment | assignmentAccepted | coordinatorQueue | coordinatorFull
    | globalScoreImproved | coordinatorFree => exact ih

/-- A rank that has seen a worker event in its run is running or waiting. -/
theorem running_add_waiting (past : List ClockEvent) :
    Meter.running.signal past + Meter.waiting.signal past = sinceWorkerEvent past := by
  rw [Meter.signal, Meter.signal, sinceWorkerEvent, Meter.level, Meter.level]
  have hseen := workerSeen_eq_false_iff past
  cases hrun : inRun past with
  | false => rfl
  | true =>
    cases hphase : lastWorkerEvent past with
    | NONE =>
      rw [hseen.mpr hphase]
      rfl
    | WAITING | RUNNING =>
      have htrue : workerSeen past = true := by
        rw [← Bool.not_eq_false, hseen, hphase]
        exact Phase.noConfusion
      rw [htrue]
      rfl

theorem signal_le_one (m : Meter) (h : m ≠ .available) (past : List ClockEvent) :
    m.signal past ≤ 1 := by
  rw [Meter.signal]
  split
  · cases m with
    | available => exact absurd rfl h
    | running | waiting | full =>
      rw [Meter.level]
      split
      · exact le_rfl
      · exact Nat.zero_le 1
  · exact Nat.zero_le 1

theorem toNat_reading_after {history : List (ClockEvent × UInt64)} (m : Meter) {t : UInt64}
    (h : Recorded history) (ht : StampedBy (times history) t.toNat)
    (hfit : integral m.signal (times history) t.toNat < 2 ^ 64) :
    (m.reading t (SchedulerClock.after history)).toNat =
      integral m.signal (times history) t.toNat := by
  rw [reading_after m h.ordered h.alternates ht]
  exact UInt64.toNat_ofNat_of_lt' hfit

theorem integral_fits (m : Meter) (h : m ≠ .available) (history : List (ClockEvent × ℕ))
    (t : UInt64) : integral m.signal history t.toNat < 2 ^ 64 :=
  lt_of_le_of_lt (integral_le (signal_le_one m h)) t.toNat_lt

theorem integrates_fill {history : List (ClockEvent × UInt64)} {t : UInt64}
    (h : Recorded history) (hmarked : AssignmentsMarked history)
    (ht : StampedBy (times history) t.toNat) (hfit : SumsFit history t) (frame : WorkerFrame) :
    Integrates history t ((SchedulerClock.after history).fill t frame) := by
  have hassigned := assigned_after h.ordered h.ranksFit hmarked
  obtain ⟨hrunning, hwaiting, hfull, havailable⟩ :=
    fill_eq_readings t (SchedulerClock.after history) frame
  refine ⟨?_, ?_, ?_, ?_, ?_, ?_, hassigned.longest⟩
  · rw [hrunning]
    exact toNat_reading_after .running h ht (integral_fits .running Meter.noConfusion _ t)
  · rw [hwaiting]
    exact toNat_reading_after .waiting h ht (integral_fits .waiting Meter.noConfusion _ t)
  · rw [hfull]
    exact toNat_reading_after .full h ht (integral_fits .full Meter.noConfusion _ t)
  · rw [havailable]
    exact toNat_reading_after .available h ht hfit.available
  · have htotal : ((SchedulerClock.after history).fill t frame).assignLatencyMicrosecondsTotal =
        UInt64.ofNat (latencies history).sum := hassigned.total
    rw [htotal]
    exact UInt64.toNat_ofNat_of_lt' hfit.latency
  · have hcount : ((SchedulerClock.after history).fill t frame).assignCount =
        UInt64.ofNat (latencies history).length := hassigned.count
    rw [hcount]
    exact UInt64.toNat_ofNat_of_lt' hfit.count

/-! Later events. -/

theorem Recorded.of_append {later history : List (ClockEvent × UInt64)}
    (h : Recorded (later ++ history)) : Recorded history := by
  induction later with
  | nil => exact h
  | cons e later ih =>
    refine ih ⟨h.ordered.2, Alternates.tail h.alternates, ?_⟩
    intro rank now hmem
    exact h.ranksFit rank now (hmem.imp (List.mem_cons_of_mem e) (List.mem_cons_of_mem e))

theorem latencies_suffix (later history : List (ClockEvent × UInt64)) :
    ∃ more, latencies (later ++ history) = more ++ latencies history := by
  induction later with
  | nil => exact ⟨[], rfl⟩
  | cons e later ih =>
    obtain ⟨more, hmore⟩ := ih
    obtain ⟨e, now⟩ := e
    cases e with
    | assignmentAccepted rank =>
      rw [List.cons_append, latencies]
      cases openAssignment rank (later ++ history) with
      | none => exact ⟨more, hmore⟩
      | some assigned => exact ⟨_ :: more, congrArg _ hmore⟩
    | runStart | runEnd | workerWaiting | workerRunning | assignment | coordinatorQueue
    | coordinatorFull | globalScoreImproved | coordinatorFree => exact ⟨more, hmore⟩

theorem foldr_max_le (more known : List ℕ) :
    known.foldr max 0 ≤ (more ++ known).foldr max 0 := by
  induction more with
  | nil => exact le_rfl
  | cons x more ih => exact ih.trans (le_max_right x _)

theorem integral_mono_append {signal : List ClockEvent → ℕ}
    {later history : List (ClockEvent × UInt64)} {t t' : UInt64}
    (hlater : StampedFrom (times later) t.toNat) (ht : t ≤ t') :
    integral signal (times history) t.toNat ≤
      integral signal (times (later ++ history)) t'.toNat := by
  calc integral signal (times history) t.toNat
      = integral signal (times later ++ times history) t.toNat := (integral_append hlater).symm
    _ = integral signal (times (later ++ history)) t.toNat := by rw [times, times, times,
          List.map_append]
    _ ≤ integral signal (times (later ++ history)) t'.toNat :=
        integral_mono (UInt64.le_iff_toNat_le.mp ht)

theorem SumsFit.of_append {later history : List (ClockEvent × UInt64)} {t t' : UInt64}
    (h : SumsFit (later ++ history) t') (hlater : StampedFrom (times later) t.toNat)
    (ht : t ≤ t') : SumsFit history t := by
  obtain ⟨more, hmore⟩ := latencies_suffix later history
  have hlatency := h.latency
  have hcount := h.count
  rw [hmore, List.sum_append] at hlatency
  rw [hmore, List.length_append] at hcount
  refine ⟨lt_of_le_of_lt (integral_mono_append hlater ht) h.available, ?_, ?_⟩
  · omega
  · omega

theorem integrates_mono {earlier later : List (ClockEvent × UInt64)} {s t : UInt64}
    {f f' : WorkerFrame} (hf : Integrates earlier s f) (hf' : Integrates (later ++ earlier) t f')
    (hlater : StampedFrom (times later) s.toNat) (hst : s ≤ t) : NoTimeDecreases f f' := by
  obtain ⟨more, hmore⟩ := latencies_suffix later earlier
  have hgrows : ∀ m : Meter, integral m.signal (times earlier) s.toNat ≤
      integral m.signal (times (later ++ earlier)) t.toNat := fun m =>
    integral_mono_append hlater hst
  refine ⟨?_, ?_, ?_, ?_, ?_, ?_, ?_⟩
  · rw [UInt64.le_iff_toNat_le, hf.running, hf'.running]
    exact hgrows .running
  · rw [UInt64.le_iff_toNat_le, hf.waiting, hf'.waiting]
    exact hgrows .waiting
  · rw [UInt64.le_iff_toNat_le, hf.full, hf'.full]
    exact hgrows .full
  · rw [UInt64.le_iff_toNat_le, hf.available, hf'.available]
    exact hgrows .available
  · rw [UInt64.le_iff_toNat_le, hf.latency, hf'.latency, hmore, List.sum_append]
    exact Nat.le_add_left _ _
  · rw [UInt64.le_iff_toNat_le, hf.count, hf'.count, hmore, List.length_append]
    exact Nat.le_add_left _ _
  · rw [UInt64.le_iff_toNat_le, hf.longest, hf'.longest, hmore]
    exact foldr_max_le more _

/-- A frame filled at `t` has the integrals up to `t`, running and waiting make up the runs from
their first worker event on, and no frame filled before reports more. -/
theorem schedulerClock {history : List (ClockEvent × UInt64)} {t : UInt64}
    (h : Recorded history) (hmarked : AssignmentsMarked history)
    (ht : StampedBy (times history) t.toNat) (hfit : SumsFit history t) (frame : WorkerFrame) :
    let f := (SchedulerClock.after history).fill t frame
    Integrates history t f ∧
      f.schedRunningMicroseconds.toNat + f.schedWaitingMicroseconds.toNat =
        integral sinceWorkerEvent (times history) t.toNat ∧
      ∀ later earlier s before, history = later ++ earlier →
        StampedBy (times earlier) s.toNat → StampedFrom (times later) s.toNat → s ≤ t →
        NoTimeDecreases ((SchedulerClock.after earlier).fill s before) f := by
  intro f
  have hf : Integrates history t f := integrates_fill h hmarked ht hfit frame
  refine ⟨hf, ?_, ?_⟩
  · rw [hf.running, hf.waiting, ← integral_add]
    exact integral_congr running_add_waiting
  · rintro later earlier s before rfl hs hlater hst
    have hearlier : AssignmentsMarked earlier := fun rank now hmem =>
      hmarked rank now (List.mem_append_right later hmem)
    exact integrates_mono
      (integrates_fill h.of_append hearlier hs (hfit.of_append hlater hst) before) hf hlater hst

/-- A run of ten units: an assignment of rank 1 at 2 is accepted at 5, the rank waits from 3 on
and runs from 6 on. -/
def shortRun : List (ClockEvent × UInt64) :=
  [(.runEnd, 10), (.workerRunning, 6), (.assignmentAccepted 1, 5), (.workerWaiting, 3),
    (.assignment 1, 2), (.runStart, 0)]

theorem recorded_shortRun : Recorded shortRun := by
  refine ⟨?_, ?_, ?_⟩
  · simp [Ordered, StampedBy, times, shortRun]
  · simp [Alternates, shortRun, inRun]
  · intro rank now hmem
    have hone : rank = 1 := by
      simp [shortRun] at hmem
      obtain hrank | hrank := hmem
      · exact hrank.1
      · exact hrank.1
    rw [hone]
    decide

theorem schedulerClock_shortRun :
    ((SchedulerClock.after shortRun).fill 12 WorkerFrame.zero).schedRunningMicroseconds.toNat =
      integral Meter.running.signal (times shortRun) 12 := by
  have hmarked : AssignmentsMarked shortRun := by
    intro rank now hmem
    have htwo : now = 2 := by
      simp [shortRun] at hmem
      exact hmem.2
    rw [htwo]
    decide
  have ht : StampedBy (times shortRun) (12 : UInt64).toNat := by
    simp [StampedBy, times, shortRun]
  have hfit : SumsFit shortRun 12 := ⟨by decide, by decide, by decide⟩
  exact (schedulerClock recorded_shortRun hmarked ht hfit WorkerFrame.zero).1.running

/-- An assignment at the last time of the clock looks like none. -/
def lastAssignment : List (ClockEvent × UInt64) :=
  [(.assignmentAccepted 0, UNASSIGNED), (.assignment 0, UNASSIGNED)]

theorem not_integrates_of_unmarked :
    ¬ ∀ history t frame, Recorded history → StampedBy (times history) t.toNat →
      SumsFit history t →
      Integrates history t ((SchedulerClock.after history).fill t frame) := by
  intro hall
  have hrecorded : Recorded lastAssignment := by
    refine ⟨?_, ?_, ?_⟩
    · simp [Ordered, StampedBy, times, lastAssignment]
    · simp [Alternates, lastAssignment]
    · intro rank now hmem
      have hzero : rank = 0 := by
        simp [lastAssignment] at hmem
        exact hmem.1
      rw [hzero]
      decide
  have hstamped : StampedBy (times lastAssignment) UNASSIGNED.toNat := by
    simp [StampedBy, times, lastAssignment]
  have hfit : SumsFit lastAssignment UNASSIGNED := by
    refine ⟨?_, by decide, by decide⟩
    have hfrom : StampedFrom (times lastAssignment) UNASSIGNED.toNat := by
      simp [StampedFrom, times, lastAssignment]
    have hempty : integral Meter.available.signal (times lastAssignment ++ []) UNASSIGNED.toNat =
        integral Meter.available.signal [] UNASSIGNED.toNat := integral_append hfrom
    rw [List.append_nil] at hempty
    have hzero : integral Meter.available.signal [] UNASSIGNED.toNat = 0 := by
      apply Finset.sum_eq_zero
      intro x _
      rfl
    rw [hempty, hzero]
    decide
  have hcount := (hall lastAssignment UNASSIGNED WorkerFrame.zero hrecorded hstamped hfit).count
  revert hcount
  decide

end Gempba.Telemetry
