import Gempba.Library.Extension
import Gempba.Schedulers.Centralized
import Mathlib.Data.Rat.Defs

/-!
# Back-pressure at the center

The center tells every worker when its queue or its memory is full, and when
there is room again. The last status is cached; a queue of twice the limit
clears it without a message, so that the workers are told once more. The
memory in use and the clock are readings. Products with 0.9 and 0.8 are exact.
-/

namespace Gempba

set_option autoImplicit false

open Transition

inductive FullnessTag where
  | CENTER_IS_FULL | CENTER_IS_FREE
  deriving DecidableEq, Repr

structure Fullness where
  centerLastFullStatus : Bool
  timeCenterfullSent : ℚ
  fullnessNoticesSent : ℕ
  maxQueueSize : ℕ
  deriving DecidableEq, Repr

namespace Fullness

def MAX_MEMORY_MB : ℕ := 1024 * 10

def CENTER_NBSTORED_TASKS_PER_PROCESS : ℕ := 1000

def initial : Fullness := ⟨false, 0, 0, 0⟩

/-- The part of `process_task_for_center` that follows the push of the task. -/
def processTaskForCenter (worldSize queueSize : ℕ) (now : ℚ) (f : Fullness) : Fullness :=
  let f := if queueSize > f.maxQueueSize then { f with maxQueueSize := queueSize } else f
  if queueSize > 2 * CENTER_NBSTORED_TASKS_PER_PROCESS * worldSize ∧
      now - f.timeCenterfullSent > 1 then { f with centerLastFullStatus := false }
  else f

/-- The message, if any, goes to every worker. -/
def notifyCenterFull (worldSize queueSize memory : ℕ) (now : ℚ) (f : Fullness) :
    Fullness × Option FullnessTag :=
  if memory > MAX_MEMORY_MB ∨ queueSize > CENTER_NBSTORED_TASKS_PER_PROCESS * worldSize then
    ({ f with
      fullnessNoticesSent := f.fullnessNoticesSent + 1
      centerLastFullStatus := true
      timeCenterfullSent := now }, some .CENTER_IS_FULL)
  else (f, none)

def notifyCenterFree (worldSize queueSize memory : ℕ) (f : Fullness) :
    Fullness × Option FullnessTag :=
  if 10 * memory ≤ 9 * MAX_MEMORY_MB ∧
      10 * queueSize < 8 * (CENTER_NBSTORED_TASKS_PER_PROCESS * worldSize) then
    ({ f with
      fullnessNoticesSent := f.fullnessNoticesSent + 1
      centerLastFullStatus := false }, some .CENTER_IS_FREE)
  else (f, none)

def monitorAndNotifyCenterStatus (worldSize queueSize memory : ℕ) (now : ℚ) (f : Fullness) :
    Fullness × Option FullnessTag :=
  if f.centerLastFullStatus then f.notifyCenterFree worldSize queueSize memory
  else f.notifyCenterFull worldSize queueSize memory now

/-- What the center reads in one iteration: the clock at the arrival of a task, the memory, and
the clock when it sends a notice. -/
structure Reading where
  arrival : ℚ
  memory : ℕ
  now : ℚ
  deriving DecidableEq, Repr

theorem processTaskForCenter_sent (worldSize queueSize : ℕ) (now : ℚ) (f : Fullness) :
    (f.processTaskForCenter worldSize queueSize now).fullnessNoticesSent =
      f.fullnessNoticesSent := by
  simp only [processTaskForCenter]
  split
  · split <;> rfl
  · split <;> rfl

/-- The status stays, or the queue is over twice the limit. -/
theorem processTaskForCenter_status (worldSize queueSize : ℕ) (now : ℚ) (f : Fullness) :
    (f.processTaskForCenter worldSize queueSize now).centerLastFullStatus =
        f.centerLastFullStatus ∨
      (f.processTaskForCenter worldSize queueSize now).centerLastFullStatus = false ∧
        queueSize > 2 * CENTER_NBSTORED_TASKS_PER_PROCESS * worldSize := by
  simp only [processTaskForCenter]
  split
  · split
    · rename_i hover
      exact Or.inr ⟨rfl, hover.1⟩
    · exact Or.inl rfl
  · split
    · rename_i hover
      exact Or.inr ⟨rfl, hover.1⟩
    · exact Or.inl rfl

theorem monitor_cases (worldSize queueSize memory : ℕ) (now : ℚ) (f : Fullness) :
    f.monitorAndNotifyCenterStatus worldSize queueSize memory now = (f, none) ∨
      ∃ g tag, f.monitorAndNotifyCenterStatus worldSize queueSize memory now = (g, some tag) ∧
        g.fullnessNoticesSent = f.fullnessNoticesSent + 1 ∧
        (tag = .CENTER_IS_FULL ↔ g.centerLastFullStatus = true) := by
  simp only [monitorAndNotifyCenterStatus]
  split
  · simp only [notifyCenterFree]
    split
    · exact Or.inr ⟨_, _, rfl, rfl, by simp⟩
    · exact Or.inl rfl
  · simp only [notifyCenterFull]
    split
    · exact Or.inr ⟨_, _, rfl, rfl, by simp⟩
    · exact Or.inl rfl

/-- A cleared status over a full queue is set again, with a message. -/
theorem monitor_full {worldSize queueSize : ℕ} {f : Fullness}
    (hstatus : f.centerLastFullStatus = false)
    (hfull : queueSize > CENTER_NBSTORED_TASKS_PER_PROCESS * worldSize) (memory : ℕ) (now : ℚ) :
    f.monitorAndNotifyCenterStatus worldSize queueSize memory now =
      ({ f with
        fullnessNoticesSent := f.fullnessNoticesSent + 1
        centerLastFullStatus := true
        timeCenterfullSent := now }, some .CENTER_IS_FULL) := by
  rw [monitorAndNotifyCenterStatus, hstatus, if_neg Bool.false_ne_true, notifyCenterFull,
    if_pos (Or.inr hfull)]

end Fullness

/-! ## The notices on their way -/

variable {W : World}

/-- The center with the notices it has sent to each worker. -/
structure Notified (W : World) where
  center : Fullness
  noticesTo : WorkerRank W → List FullnessTag

namespace Notified

def initial : Notified W := ⟨.initial, fun _ => []⟩

/-- The center after a handler that may have sent a notice to every worker. -/
def record (handled : Fullness × Option FullnessTag) (n : Notified W) : Notified W :=
  ⟨handled.1, fun w => n.noticesTo w ++ handled.2.toList⟩

/-- A worker that was told nothing takes the center to be free. -/
structure Agreed (n : Notified W) : Prop where
  status : ∀ w, (n.noticesTo w).getLast? = some .CENTER_IS_FULL ↔
    n.center.centerLastFullStatus = true
  counted : ∀ w, n.center.fullnessNoticesSent = (n.noticesTo w).length

theorem agreed_initial : (initial : Notified W).Agreed :=
  ⟨fun _ => by simp [initial, Fullness.initial], fun _ => rfl⟩

theorem record_none (n : Notified W) : n.record (n.center, none) = n := by
  simp [record]

/-- The status that was sent last is the one the center has set. -/
theorem Agreed.notify {n : Notified W} (h : n.Agreed) {f : Fullness} {tag : FullnessTag}
    (hsent : f.fullnessNoticesSent = n.center.fullnessNoticesSent + 1)
    (htag : tag = .CENTER_IS_FULL ↔ f.centerLastFullStatus = true) :
    (n.record (f, some tag)).Agreed := by
  constructor
  · intro w
    simp only [record, Option.toList_some, List.getLast?_append, List.getLast?_singleton,
      Option.some_or, Option.some.injEq]
    exact htag
  · intro w
    simp only [record, Option.toList_some, List.length_append, List.length_singleton]
    rw [hsent, h.counted w]

/-- The monitor follows a part of the loop that sent nothing. It restores the agreement when
that part has cleared the status over a full queue. -/
theorem Agreed.monitor {n : Notified W} (h : n.Agreed) {f : Fullness}
    (hsent : f.fullnessNoticesSent = n.center.fullnessNoticesSent) {queueSize : ℕ}
    (hstatus : f.centerLastFullStatus = n.center.centerLastFullStatus ∨
      f.centerLastFullStatus = false ∧
        queueSize > Fullness.CENTER_NBSTORED_TASKS_PER_PROCESS * W.size)
    (memory : ℕ) (now : ℚ) :
    (n.record (f.monitorAndNotifyCenterStatus W.size queueSize memory now)).Agreed := by
  obtain hsame | ⟨hcleared, hfull⟩ := hstatus
  · rcases Fullness.monitor_cases W.size queueSize memory now f with
      hnone | ⟨g, tag, hsome, hcount, htag⟩
    · rw [hnone]
      constructor
      · intro w
        simp only [record, Option.toList_none, List.append_nil]
        rw [h.status w, hsame]
      · intro w
        simp only [record, Option.toList_none, List.append_nil]
        rw [hsent, h.counted w]
    · rw [hsome]
      exact h.notify (hcount.trans (congrArg (· + 1) hsent)) htag
  · rw [Fullness.monitor_full hcleared hfull]
    exact h.notify (congrArg (· + 1) hsent) (by simp)

end Notified

/-! ## The center alone -/

namespace Fullness

/-- One pass up to the next probe: the message was a task for the center or not (or there was no
message), and so many tasks were dispatched. Each worker is served at most once. -/
structure Pass where
  arrives : Bool
  dispatched : ℕ
  deriving DecidableEq, Repr

/-- The state holds the size of the queue. -/
def pass (p : Pass) (r : Reading) (s : ℕ × Notified W) : Outcome Fault (ℕ × Notified W) :=
  let queueSize := s.1 + p.arrives.toNat
  if p.dispatched ≤ W.size - 1 ∧ p.dispatched ≤ queueSize then
    let f := if p.arrives then s.2.center.processTaskForCenter W.size queueSize r.arrival
      else s.2.center
    let rest := queueSize - p.dispatched
    .moved (rest, s.2.record (f.monitorAndNotifyCenterStatus W.size rest r.memory r.now))
  else .blocked

/-- Every sequence of arrivals, dispatches and readings. -/
def center (W : World) : Machine (ℕ × Notified W) (Pass × Reading) Fault where
  initial s := s = (0, .initial)
  step l := pass l.1 l.2

theorem pass_moved {p : Pass} {r : Reading} {s t : ℕ × Notified W}
    (h : pass p r s = .moved t) :
    p.dispatched ≤ W.size - 1 ∧ p.dispatched ≤ s.1 + p.arrives.toNat ∧
      t = (s.1 + p.arrives.toNat - p.dispatched,
        s.2.record ((if p.arrives then
          s.2.center.processTaskForCenter W.size (s.1 + p.arrives.toNat) r.arrival
          else s.2.center).monitorAndNotifyCenterStatus W.size
            (s.1 + p.arrives.toNat - p.dispatched) r.memory r.now)) := by
  simp only [pass] at h
  split at h
  · rename_i hguard
    cases h
    exact ⟨hguard.1, hguard.2, rfl⟩
  · cases h

theorem agreed_pass {p : Pass} {r : Reading} {s t : ℕ × Notified W} (hs : s.2.Agreed)
    (h : pass p r s = .moved t) : t.2.Agreed := by
  obtain ⟨hserved, _, rfl⟩ := pass_moved h
  cases harrives : p.arrives with
  | false => exact hs.monitor rfl (Or.inl rfl) r.memory r.now
  | true =>
    simp only [if_true, Bool.toNat_true]
    refine hs.monitor (processTaskForCenter_sent _ _ _ _) ?_ r.memory r.now
    rcases processTaskForCenter_status W.size (s.1 + 1) r.arrival s.2.center with
      hsame | ⟨hcleared, hover⟩
    · exact Or.inl hsame
    · -- a dispatch cannot bring the queue from twice the limit below the limit
      have hsize := W.two_le
      simp only [CENTER_NBSTORED_TASKS_PER_PROCESS] at hover ⊢
      exact Or.inr ⟨hcleared, by omega⟩

theorem agreed_of_center {s : ℕ × Notified W} (h : (center W).Reachable s) : s.2.Agreed := by
  refine h.invariant (I := fun s => s.2.Agreed) ?_ ?_
  · rintro s rfl
    exact Notified.agreed_initial
  · intro s l t _ hs _ hst
    exact agreed_pass hs hst

end Fullness

/-! ## The center in the scheduler -/

namespace Centralized

/-- What the steps of the scheduler do to the status. The center probes next unless it exits. -/
def fullness (r : Fullness.Reading) (e : Event W) (s t : State W) (f : Fullness) :
    Fullness × Option FullnessTag :=
  match e with
  | .center m _ =>
    let f := match m with
      | .task _ _ => f.processTaskForCenter W.size (s.queue.card + 1) r.arrival
      | _ => f
    if t.centerPhase = .receiving then
      f.monitorAndNotifyCenterStatus W.size t.queue.card r.memory r.now
    else (f, none)
  | .clearBuffer _ => f.monitorAndNotifyCenterStatus W.size t.queue.card r.memory r.now
  | _ => (f, none)

def monitored (W : World) : Machine (State W × Notified W) (Event W × Fullness.Reading) Fault :=
  (machine W).extend (fun _ n => n = .initial)
    fun r e s t n => .moved (n.record (fullness r e s t n.center))

/-- The message is a task for the center. -/
def CenterMessage.isTask : CenterMessage W → Bool
  | .task _ _ => true
  | _ => false

variable {s t : State W}

theorem handle_queue {m : CenterMessage W} (h : handle m s = .moved t) :
    t.queue.card = s.queue.card + m.isTask.toNat := by
  cases m with
  | state w tag =>
    obtain ⟨u, hu, rfl⟩ := Outcome.map_eq_moved.mp h
    obtain ⟨v, _, rfl⟩ := lift_moved hu
    cases tag with
    | RUNNING_STATE => rfl
    | AVAILABLE_STATE => rfl
  | scoreProposal =>
    simp only [handle] at h
    split at h
    · cases h
      rfl
    · cases h
  | task source bundle =>
    obtain ⟨_, _, rfl⟩ := processTaskForCenter_moved h
    exact Multiset.card_cons _ _
  | acknowledgement source =>
    obtain ⟨u, _, rfl⟩ := lift_moved h
    rfl

theorem clearBuffer_queue {order : List Ticketed} (h : clearBuffer order s = .moved t) :
    t.centerPhase = .receiving ∧
      ∃ d, d ≤ W.size - 1 ∧ d ≤ s.queue.card ∧ t.queue.card = s.queue.card - d := by
  obtain ⟨hphase, horder, rfl⟩ := clearBuffer_moved h
  have hcontents := dispatchToAvailable_contents popFront (fun q => (q : Multiset Ticketed))
    popFront_contents W.workers order s.processState
  obtain ⟨_, _, hnodup, _⟩ := dispatchToAvailable_states popFront W.workers order s.processState
  have hserved := hnodup.length_le_card
  rw [List.length_map, World.card_workers] at hserved
  have hcard := congrArg Multiset.card hcontents
  rw [Multiset.card_add, Multiset.coe_card, List.length_map, ← horder] at hcard
  exact ⟨hphase, _, hserved, by omega, by simp only; omega⟩

theorem monitored_pass {e : Event W} {r : Fullness.Reading} {n : Notified W}
    (hst : step e s = .moved t) :
    (t.queue.card, n.record (fullness r e s t n.center)) = (s.queue.card, n) ∨
      ∃ p, Fullness.pass p r (s.queue.card, n) =
        .moved (t.queue.card, n.record (fullness r e s t n.center)) := by
  have hstays : ∀ f : Fullness × Option FullnessTag, f = (n.center, none) →
      t.queue = s.queue → (t.queue.card, n.record f) = (s.queue.card, n) := by
    rintro f rfl hqueue
    rw [Notified.record_none, hqueue]
  cases e with
  | center m order =>
    obtain ⟨u, hu, hafter⟩ := Outcome.bind_eq_moved.mp hst
    have hqueue := handle_queue hu
    simp only [afterMessage] at hafter
    split at hafter
    · -- the center exits, so that the message was not a task
      rename_i hidle
      cases hafter
      left
      have hempty := congrArg Multiset.card hidle.2
      rw [hqueue, Multiset.card_zero] at hempty
      have hsame : s.queue = 0 := Multiset.card_eq_zero.mp (by omega)
      cases m with
      | task source bundle =>
        simp [CenterMessage.isTask] at hempty
      | state w tag => exact hstays _ rfl (hidle.2.trans hsame.symm)
      | scoreProposal => exact hstays _ rfl (hidle.2.trans hsame.symm)
      | acknowledgement source => exact hstays _ rfl (hidle.2.trans hsame.symm)
    · right
      obtain ⟨hphase, d, hserved, hd, hrest⟩ := clearBuffer_queue hafter
      rw [hqueue] at hd hrest
      refine ⟨⟨m.isTask, d⟩, ?_⟩
      simp only [Fullness.pass]
      rw [if_pos ⟨hserved, hd⟩, ← hrest]
      simp only [fullness, if_pos hphase]
      cases m with
      | task source bundle => rfl
      | state w tag => rfl
      | scoreProposal => rfl
      | acknowledgement source => rfl
  | clearBuffer order =>
    right
    obtain ⟨hphase, d, hserved, hd, hqueue⟩ := clearBuffer_queue hst
    refine ⟨⟨false, d⟩, ?_⟩
    simp only [Fullness.pass, Bool.toNat_false, add_zero]
    rw [if_pos ⟨hserved, hd⟩, ← hqueue]
    rfl
  | _ =>
    left
    obtain ⟨u, _, rfl⟩ := lift_moved hst
    exact hstays _ rfl rfl

theorem agreed_of_reachable {s : State W × Notified W} (h : (monitored W).Reachable s) :
    s.2.Agreed := by
  have hcenter : (Fullness.center W).Reachable (s.1.queue.card, s.2) := by
    refine h.observe (N := Fullness.center W) (R := fun _ _ => True)
      (fun s => (s.1.queue.card, s.2)) ?_ ?_
    · rintro ⟨s, n⟩ ⟨⟨seed, hs⟩, hn⟩
      have hs : s = sendSeed seed := hs
      have hn : n = .initial := hn
      rw [hs, hn]
      rfl
    · rintro ⟨s, n⟩ ⟨e, r⟩ ⟨t, n'⟩ _ _ hst
      obtain ⟨hbase, hreact⟩ := Machine.extend_moved.mp hst
      obtain rfl : n.record (fullness r e s t n.center) = n' := Outcome.moved.inj hreact
      obtain hsame | ⟨p, hpass⟩ := monitored_pass hbase
      · exact Or.inl hsame
      · exact Or.inr ⟨(p, r), trivial, hpass⟩
  exact Fullness.agreed_of_center hcenter

end Centralized

/-- The center by itself, and the center in every run of the scheduler. -/
theorem fullness_agreed (W : World) :
    (∀ s : ℕ × Notified W, (Fullness.center W).Reachable s → s.2.Agreed) ∧
      ∀ s : Centralized.State W × Notified W, (Centralized.monitored W).Reachable s →
        s.2.Agreed :=
  ⟨fun _ h => Fullness.agreed_of_center h, fun _ h => Centralized.agreed_of_reachable h⟩

/-! ## The queue over twice the limit -/

namespace Fullness

/-- A task arrives, no memory is in use and no worker is available. -/
def arrival (now : ℚ) : Pass × Reading := (⟨true, 0⟩, ⟨now, 0, now⟩)

/-- A queue within the limit, or one within twice the limit at a center that is known to be full,
grows without a notice. -/
theorem step_arrival (now : ℚ) {q : ℕ} {n : Notified W} (hmax : n.center.maxQueueSize = q)
    (hover : q < 2 * CENTER_NBSTORED_TASKS_PER_PROCESS * W.size)
    (hfree : n.center.centerLastFullStatus = false →
      q < CENTER_NBSTORED_TASKS_PER_PROCESS * W.size)
    (hfull : n.center.centerLastFullStatus = true →
      CENTER_NBSTORED_TASKS_PER_PROCESS * W.size ≤ q) :
    (center W).step (arrival now) (q, n) =
      .moved (q + 1, ⟨{ n.center with maxQueueSize := q + 1 }, n.noticesTo⟩) := by
  have hgrown : n.center.processTaskForCenter W.size (q + 1) now =
      { n.center with maxQueueSize := q + 1 } := by
    simp only [processTaskForCenter, hmax]
    rw [if_pos (Nat.lt_succ_self q), if_neg]
    intro hboth
    omega
  have hsilent : ({ n.center with maxQueueSize := q + 1 } : Fullness).monitorAndNotifyCenterStatus
      W.size (q + 1) 0 now = ({ n.center with maxQueueSize := q + 1 }, none) := by
    simp only [monitorAndNotifyCenterStatus]
    split
    · rename_i hstatus
      have hlimit := hfull hstatus
      rw [notifyCenterFree, if_neg]
      intro hboth
      omega
    · rename_i hstatus
      have hlimit := hfree (Bool.eq_false_of_not_eq_true hstatus)
      rw [notifyCenterFull, if_neg]
      rintro (hmemory | hqueue)
      · exact absurd hmemory (Nat.not_lt_zero _)
      · omega
  simp only [center, arrival, pass, Bool.toNat_true, if_true, Nat.sub_zero]
  rw [if_pos ⟨Nat.zero_le _, Nat.zero_le _⟩, hgrown, hsilent]
  simp [Notified.record]

/-- More than a second after the last notice, a queue over twice the limit leads to another. -/
theorem step_overrun {q : ℕ} {n : Notified W} {now : ℚ} (hmax : n.center.maxQueueSize = q)
    (hover : 2 * CENTER_NBSTORED_TASKS_PER_PROCESS * W.size ≤ q)
    (hlate : now - n.center.timeCenterfullSent > 1) :
    (center W).step (arrival now) (q, n) = .moved (q + 1, n.record
      (⟨true, now, n.center.fullnessNoticesSent + 1, q + 1⟩, some .CENTER_IS_FULL)) := by
  have hcleared : n.center.processTaskForCenter W.size (q + 1) now =
      { n.center with maxQueueSize := q + 1, centerLastFullStatus := false } := by
    simp only [processTaskForCenter, hmax]
    rw [if_pos (Nat.lt_succ_self q), if_pos ⟨Nat.lt_succ_of_le hover, hlate⟩]
  have hfull : q + 1 > CENTER_NBSTORED_TASKS_PER_PROCESS * W.size := by
    simp only [CENTER_NBSTORED_TASKS_PER_PROCESS] at hover ⊢
    omega
  simp only [center, arrival, pass, Bool.toNat_true, if_true, Nat.sub_zero]
  rw [if_pos ⟨Nat.zero_le _, Nat.zero_le _⟩, hcleared, monitor_full rfl hfull]

theorem reachable_arrivals (now : ℚ) (k : ℕ) {q : ℕ} {n : Notified W}
    (h : (center W).Reachable (q, n)) (hmax : n.center.maxQueueSize = q)
    (hover : q + k ≤ 2 * CENTER_NBSTORED_TASKS_PER_PROCESS * W.size)
    (hfree : n.center.centerLastFullStatus = false →
      q + k ≤ CENTER_NBSTORED_TASKS_PER_PROCESS * W.size)
    (hfull : n.center.centerLastFullStatus = true →
      CENTER_NBSTORED_TASKS_PER_PROCESS * W.size ≤ q) :
    (center W).Reachable
      (q + k, ⟨{ n.center with maxQueueSize := q + k }, n.noticesTo⟩) := by
  induction k with
  | zero =>
    subst hmax
    exact h
  | succ k ih =>
    have hk := ih (by omega) (fun hstatus => (Nat.le_succ _).trans (hfree hstatus))
    refine hk.tail trivial (step_arrival now rfl (by omega) ?_ ?_)
    · intro hstatus
      exact Nat.lt_of_succ_le (hfree hstatus)
    · intro hstatus
      exact (hfull hstatus).trans (Nat.le_add_right q k)

end Fullness

/-- The limit of the pair is passed at the clock 1 and twice the limit at the clock 3. -/
def overrun : Notified .pair :=
  ⟨⟨true, 3, 2, 4001⟩, fun _ => [.CENTER_IS_FULL, .CENTER_IS_FULL]⟩

theorem reachable_overrun : (Fullness.center .pair).Reachable (4001, overrun) := by
  have hlimit : (Fullness.center .pair).Reachable (2000, ⟨⟨false, 0, 0, 2000⟩, fun _ => []⟩) :=
    Fullness.reachable_arrivals 0 2000 (.start rfl) rfl (by decide) (by decide) (by decide)
  have hfull : (Fullness.center .pair).Reachable
      (2001, ⟨⟨true, 1, 1, 2001⟩, fun _ => [.CENTER_IS_FULL]⟩) :=
    hlimit.tail (l := Fullness.arrival 1) trivial rfl
  have htwice : (Fullness.center .pair).Reachable
      (4000, ⟨⟨true, 1, 1, 4000⟩, fun _ => [.CENTER_IS_FULL]⟩) :=
    Fullness.reachable_arrivals 1 1999 hfull rfl (by decide) (by decide) (by decide)
  exact htwice.tail trivial (Fullness.step_overrun rfl (by decide) (by norm_num))

/-- Memory runs full, and is free again. -/
def fullThenFree : List (Fullness.Pass × Fullness.Reading) :=
  [(⟨true, 0⟩, ⟨0, 20000, 1⟩), (⟨false, 1⟩, ⟨0, 100, 2⟩)]

theorem fullThenFree_runs :
    ((Fullness.center .pair).run fullThenFree (0, .initial)).isSome = true := by
  decide

theorem oneTask_monitored : ((Centralized.monitored .pair).run
    (Centralized.oneTask.map (·, ⟨0, 20000, 1⟩))
    (Centralized.sendSeed ⟨[7], 3⟩, .initial)).isSome = true := by
  decide

theorem fullness_agreed_overrun :
    overrun.Agreed ∧
    (((Fullness.center .pair).run fullThenFree (0, .initial)).get fullThenFree_runs).2.Agreed ∧
    (((Centralized.monitored .pair).run (Centralized.oneTask.map (·, ⟨0, 20000, 1⟩))
      (Centralized.sendSeed ⟨[7], 3⟩, .initial)).get oneTask_monitored).2.Agreed := by
  refine ⟨(fullness_agreed .pair).1 _ reachable_overrun, ?_, ?_⟩
  · refine (fullness_agreed .pair).1 _ ?_
    have hstart : (Fullness.center .pair).Reachable (0, .initial) := .start rfl
    exact hstart.run (Option.some_get _).symm
  · refine (fullness_agreed .pair).2 _ ?_
    have hstart : (Centralized.monitored .pair).Reachable
        (Centralized.sendSeed ⟨[7], 3⟩, .initial) := .start ⟨⟨_, rfl⟩, rfl⟩
    exact hstart.run (Option.some_get _).symm

end Gempba
