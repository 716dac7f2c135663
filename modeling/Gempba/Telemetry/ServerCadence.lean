import Gempba.Telemetry.ServerSockets
import Mathlib.Data.List.Count

/-!
# How often the server broadcasts

A line is broadcast at the end of an interval of at least 50 milliseconds, or
once for a snapshot request; requests themselves are that far apart. Hence the
number of lines in any stretch of a run is bounded by its time, whatever the
dashboards send.
-/

namespace Gempba.Telemetry

set_option autoImplicit false

open Json (bytes)

def Stamp.isSnapshot (stamp : Stamp) : Bool :=
  match stamp.cause with
  | .due _ => false
  | .snapshot _ => true

/-- The time of the last broadcast. -/
def lastTime (startMs : ℕ) : List Stamp → ℕ
  | [] => startMs
  | stamp :: _ => stamp.time

/-- Each interval is over since the broadcast before. -/
def Spaced (startMs : ℕ) : List Stamp → Prop
  | [] => True
  | stamp :: earlier => lastTime startMs earlier ≤ stamp.time ∧
    (∀ intervalMs, stamp.cause = .due intervalMs → MIN_BROADCAST_INTERVAL ≤ intervalMs ∧
      lastTime startMs earlier + intervalMs ≤ stamp.time) ∧ Spaced startMs earlier

theorem startMs_le_lastTime {startMs : ℕ} {stamps : List Stamp} (h : Spaced startMs stamps) :
    startMs + MIN_BROADCAST_INTERVAL * (stamps.length - stamps.countP Stamp.isSnapshot) ≤
      lastTime startMs stamps := by
  induction stamps with
  | nil => exact Nat.le_refl startMs
  | cons stamp earlier ih =>
    obtain ⟨hle, hdue, hearlier⟩ := h
    have hih := ih hearlier
    have hcount : earlier.countP Stamp.isSnapshot ≤ earlier.length := List.countP_le_length
    obtain ⟨time, cause⟩ := stamp
    cases cause with
    | due intervalMs =>
      obtain ⟨hmin, hinterval⟩ := hdue intervalMs rfl
      rw [List.countP_cons_of_neg (by simp [Stamp.isSnapshot]), List.length_cons,
        Nat.succ_sub hcount, Nat.mul_succ]
      generalize MIN_BROADCAST_INTERVAL * (earlier.length - earlier.countP Stamp.isSnapshot) =
        spent at hih ⊢
      rw [lastTime]
      omega
    | snapshot id =>
      rw [List.countP_cons_of_pos rfl, List.length_cons, Nat.add_sub_add_right]
      exact hih.trans hle

/-- Between two states of a run only the first broadcast may come sooner. -/
theorem le_lastTime_append {startMs floor : ℕ} {recent earlier : List Stamp}
    (h : Spaced startMs (recent ++ earlier)) (hfloor : ∀ stamp ∈ recent, floor ≤ stamp.time)
    (hne : recent ≠ []) :
    floor + MIN_BROADCAST_INTERVAL * (recent.length - recent.countP Stamp.isSnapshot - 1) ≤
      lastTime startMs (recent ++ earlier) := by
  rw [MIN_BROADCAST_INTERVAL]
  induction recent with
  | nil => exact absurd rfl hne
  | cons stamp recent ih =>
    obtain ⟨hle, hdue, hspaced⟩ := h
    obtain ⟨hstamp, hrecent⟩ := List.forall_mem_cons.mp hfloor
    have hcount : recent.countP Stamp.isSnapshot ≤ recent.length := List.countP_le_length
    have htime : lastTime startMs (stamp :: recent ++ earlier) = stamp.time := rfl
    rw [htime, List.length_cons]
    obtain rfl | hrest := eq_or_ne recent []
    · rw [List.length_nil]
      omega
    · have hih := ih hspaced hrecent hrest
      obtain ⟨time, cause⟩ := stamp
      cases cause with
      | due intervalMs =>
        obtain ⟨hmin, hinterval⟩ := hdue intervalMs rfl
        rw [MIN_BROADCAST_INTERVAL] at hmin
        have hlast : lastTime startMs (recent ++ earlier) + intervalMs ≤ time := hinterval
        have hfirst : floor ≤ time := hstamp
        rw [List.countP_cons_of_neg (by simp [Stamp.isSnapshot])]
        simp only
        omega
      | snapshot id =>
        rw [List.countP_cons_of_pos rfl, Nat.add_sub_add_right]
        exact hih.trans hle

/-- Accepted requests, the newest first, are 50 milliseconds apart, except for the one after
which their number wraps round. -/
def Apart : List ℕ → Prop
  | [] => True
  | time :: earlier => (∀ last ∈ earlier.head?, last ≤ time ∧
      (earlier.length % 4294967296 ≠ 0 → last + 50 ≤ time)) ∧ Apart earlier

theorem le_head_of_apart {floor : ℕ} {recent earlier : List ℕ} (h : Apart (recent ++ earlier))
    (hfloor : ∀ time ∈ recent, floor ≤ time) (hlt : (recent ++ earlier).length < 4294967296)
    {time : ℕ} (htime : recent.head? = some time) :
    floor + 50 * (recent.length - 1) ≤ time := by
  induction recent generalizing time with
  | nil => cases htime
  | cons newest recent ih =>
    obtain ⟨hnewest, hapart⟩ := h
    obtain ⟨hfirst, hrecent⟩ := List.forall_mem_cons.mp hfloor
    cases htime
    cases hhead : recent.head? with
    | none =>
      rw [List.head?_eq_none_iff.mp hhead, List.length_singleton]
      omega
    | some last =>
      have hlength : (recent ++ earlier).length < 4294967296 := by
        rw [List.cons_append, List.length_cons] at hlt
        omega
      have hih := ih hapart hrecent hlength hhead
      obtain ⟨rest, rfl⟩ := List.head?_eq_some_iff.mp hhead
      have hwrap : (last :: rest ++ earlier).length % 4294967296 ≠ 0 := by
        rw [Nat.mod_eq_of_lt hlength]
        exact Nat.succ_ne_zero _
      have hlast : last + 50 ≤ newest := (hnewest last rfl).2 hwrap
      simp only [List.length_cons] at hih ⊢
      omega

theorem pairwise_of_apart {times : List ℕ} (h : Apart times) (hlt : times.length < 4294967296) :
    times.Pairwise fun later earlier => earlier + 50 ≤ later := by
  induction times with
  | nil => exact List.Pairwise.nil
  | cons time earlier ih =>
    obtain ⟨htime, hapart⟩ := h
    rw [List.length_cons] at hlt
    have hearlier := ih hapart (Nat.lt_of_succ_lt hlt)
    refine List.pairwise_cons.mpr ⟨?_, hearlier⟩
    intro other hother
    cases earlier with
    | nil => cases hother
    | cons last rest =>
      have hwrap : (last :: rest).length % 4294967296 ≠ 0 := by
        rw [Nat.mod_eq_of_lt (Nat.lt_of_succ_lt hlt)]
        exact Nat.succ_ne_zero _
      have hlast := (htime last rfl).2 hwrap
      obtain rfl | hrest := List.mem_cons.mp hother
      · exact hlast
      · have hbefore := (List.pairwise_cons.mp hearlier).1 other hrest
        omega

def BroadcastPoint.cause : BroadcastPoint → Option Cause
  | .stamping _ cause => some cause
  | .loop | .waiting _ | .draining _ _ | .applying _ _ _ _ | .testing _ | .building _ _
  | .ready _ _ | .distributing _ _ _ _ | .closing _ | .left => none

/-- The lines that are stamped and not distributed. -/
def BroadcastPoint.owes : BroadcastPoint → ℕ
  | .building _ _ => 1
  | .ready _ line => line.toList.length
  | .loop | .waiting _ | .draining _ _ | .applying _ _ _ _ | .testing _ | .stamping _ _
  | .distributing _ _ _ _ | .closing _ | .left => 0

theorem BroadcastPoint.owes_le (broadcast : BroadcastPoint) : broadcast.owes ≤ 1 := by
  cases broadcast with
  | building => exact Nat.le_refl 1
  | ready dead line => cases line <;> simp [owes]
  | loop | waiting | draining | applying | testing | stamping | distributing | closing | left =>
    exact Nat.zero_le 1

/-- One if a request waits for its broadcast. -/
def unanswered (requested answered : UInt32) : ℕ := (decide (requested ≠ answered)).toNat

theorem unanswered_le (requested answered : UInt32) : unanswered requested answered ≤ 1 :=
  Bool.toNat_le _

/-- Why the thread is about to broadcast. -/
def Cause.Holds (now : ℕ) (requested : UInt32) (last : ℕ) (answered : UInt32) : Cause → Prop
  | .due intervalMs => MIN_BROADCAST_INTERVAL ≤ intervalMs ∧ last + intervalMs ≤ now
  | .snapshot id => id = requested ∧ id ≠ answered

/-- What the clocks say since the start, and since the state `b` before. -/
structure Paced (b : Server) (startMs now : ℕ) (requested : UInt32) (requestedMs last : ℕ)
    (answered : UInt32) (stamps : List Stamp) (requests : List ℕ) (broadcast : BroadcastPoint) :
    Prop where
  last_eq : last = lastTime startMs stamps
  last_le : last ≤ now
  spaced : Spaced startMs stamps
  requested_eq : requested = UInt32.ofNat requests.length
  latest : ∀ time ∈ requests.head?, requestedMs = time ∧ time ≤ now
  started : startMs ≤ now ∧ ∀ time ∈ requests, startMs ≤ time
  apart : Apart requests
  due : ∀ cause ∈ broadcast.cause, cause.Holds now requested last answered
  since : b.now ≤ now
  stamps_since : ∃ recent, stamps = recent ++ b.stamps ∧ ∀ stamp ∈ recent, b.now ≤ stamp.time
  requests_since : ∃ recent, requests = recent ++ b.requests ∧ ∀ time ∈ recent, b.now ≤ time
  /-- Of the requests since then and the one before them, each is answered once at most. -/
  snapshots : stamps.countP Stamp.isSnapshot + unanswered requested answered +
      b.requests.length ≤
    b.stamps.countP Stamp.isSnapshot + unanswered b.hub.snapshotRequested b.broadcastSnapshot +
      requests.length

namespace Paced

variable {b : Server} {startMs now now' : ℕ} {requested : UInt32} {requestedMs last : ℕ}
  {answered : UInt32} {stamps : List Stamp} {requests : List ℕ}
  {broadcast broadcast' : BroadcastPoint}

theorem tick (h : Paced b startMs now requested requestedMs last answered stamps requests
      broadcast) :
    Paced b startMs (now + 1) requested requestedMs last answered stamps requests broadcast := by
  refine { h with
    last_le := Nat.le_succ_of_le h.last_le, latest := ?_, due := ?_
    started := ⟨Nat.le_succ_of_le h.started.1, h.started.2⟩, since := Nat.le_succ_of_le h.since }
  · intro time htime
    obtain ⟨heq, hle⟩ := h.latest time htime
    exact ⟨heq, Nat.le_succ_of_le hle⟩
  · intro cause hcause
    have hholds := h.due cause hcause
    cases cause with
    | due intervalMs => exact ⟨hholds.1, Nat.le_succ_of_le hholds.2⟩
    | snapshot id => exact hholds

theorem goOn (h : Paced b startMs now requested requestedMs last answered stamps requests
      broadcast) (hcause : ∀ cause ∈ broadcast'.cause, cause.Holds now requested last answered) :
    Paced b startMs now requested requestedMs last answered stamps requests broadcast' :=
  { h with due := hcause }

theorem request (h : Paced b startMs now requested requestedMs last answered stamps requests
      broadcast) (hcause : broadcast'.cause = none)
    (hsoon : ¬ (requested ≠ 0 ∧ now - requestedMs < 50)) :
    Paced b startMs now (requested + 1) now last answered stamps (now :: requests)
      broadcast' := by
  have hrequested : requested + 1 = UInt32.ofNat (now :: requests).length := by
    rw [h.requested_eq, List.length_cons, UInt32.ofNat_add]
    rfl
  refine { h with
    requested_eq := hrequested, latest := ?_, started := ?_, apart := ⟨?_, h.apart⟩, due := ?_
    requests_since := ?_, snapshots := ?_ }
  · rintro _ ⟨⟩
    exact ⟨rfl, Nat.le_refl now⟩
  · exact ⟨h.started.1, List.forall_mem_cons.mpr h.started⟩
  · intro time htime
    obtain ⟨rfl, hle⟩ := h.latest time htime
    refine ⟨hle, fun hwrap => ?_⟩
    have hne : requested ≠ 0 := by
      intro heq
      have hnat := congrArg UInt32.toNat (h.requested_eq.symm.trans heq)
      exact hwrap hnat
    have hfloor : 50 ≤ now - requestedMs := by
      by_contra hlow
      exact hsoon ⟨hne, Nat.not_le.mp hlow⟩
    omega
  · rw [hcause]
    intro cause hmem
    cases hmem
  · obtain ⟨recent, rfl, hfloor⟩ := h.requests_since
    exact ⟨now :: recent, rfl, List.forall_mem_cons.mpr ⟨h.since, hfloor⟩⟩
  · have hsnapshots := h.snapshots
    have hone := unanswered_le (requested + 1) answered
    rw [List.length_cons]
    omega

theorem stampDue {dead : List ℕ} {intervalMs : ℕ} (h : Paced b startMs now requested requestedMs
      last answered stamps requests (.stamping dead (.due intervalMs)))
    (hcause : broadcast'.cause = none) :
    Paced b startMs now requested requestedMs now answered (⟨now, .due intervalMs⟩ :: stamps)
      requests broadcast' := by
  obtain ⟨hmin, hinterval⟩ := h.due _ rfl
  refine { h with
    last_eq := rfl, last_le := Nat.le_refl now, spaced := ?_, due := ?_, stamps_since := ?_ }
  · refine ⟨?_, ?_, h.spaced⟩
    · rw [← h.last_eq]
      exact h.last_le
    · rintro _ ⟨⟩
      rw [← h.last_eq]
      exact ⟨hmin, hinterval⟩
  · rw [hcause]
    intro cause hmem
    cases hmem
  · obtain ⟨recent, rfl, hfloor⟩ := h.stamps_since
    exact ⟨_ :: recent, rfl, List.forall_mem_cons.mpr ⟨h.since, hfloor⟩⟩

theorem stampSnapshot {dead : List ℕ} {id : UInt32} (h : Paced b startMs now requested
      requestedMs last answered stamps requests (.stamping dead (.snapshot id)))
    (hcause : broadcast'.cause = none) :
    Paced b startMs now requested requestedMs now id (⟨now, .snapshot id⟩ :: stamps)
      requests broadcast' := by
  obtain ⟨rfl, hne⟩ := h.due _ rfl
  refine { h with
    last_eq := rfl, last_le := Nat.le_refl now, spaced := ?_, due := ?_, stamps_since := ?_
    snapshots := ?_ }
  · refine ⟨?_, ?_, h.spaced⟩
    · rw [← h.last_eq]
      exact h.last_le
    · rintro _ ⟨⟩
  · rw [hcause]
    intro cause hmem
    cases hmem
  · obtain ⟨recent, rfl, hfloor⟩ := h.stamps_since
    exact ⟨_ :: recent, rfl, List.forall_mem_cons.mpr ⟨h.since, hfloor⟩⟩
  · have hsnapshots := h.snapshots
    have hwaits : unanswered id answered = 1 := by
      rw [unanswered, decide_eq_true hne, Bool.toNat_true]
    have hdone : unanswered id id = 0 := by
      rw [unanswered, decide_eq_false (not_not.mpr rfl), Bool.toNat_false]
    rw [List.countP_cons_of_pos rfl, hdone]
    omega

theorem requests_le (h : Paced b startMs now requested requestedMs last answered stamps requests
      broadcast) (hlt : requests.length < 4294967296) :
    requests.length ≤ (now - startMs) / 50 + 1 := by
  cases hhead : requests.head? with
  | none =>
    rw [List.head?_eq_none_iff.mp hhead]
    exact Nat.zero_le _
  | some time =>
    have hapart := h.apart
    have hle := (h.latest time hhead).2
    rw [← List.append_nil requests] at hapart hlt
    have hspent := le_head_of_apart hapart h.started.2 hlt hhead
    omega

end Paced

theorem snapshot_apply (change : HubChange) (now : ℕ) (h : Hub) :
    (change.apply now h).snapshotRequested = h.snapshotRequested ∧
      (change.apply now h).snapshotRequestedMs = h.snapshotRequestedMs := by
  cases change with
  | setIntervalMs | swapFanout => exact ⟨rfl, rfl⟩
  | readControl m =>
    obtain ⟨kind, value⟩ := m
    cases kind <;> exact ⟨rfl, rfl⟩
  | emitIfDue =>
    simp only [HubChange.apply, Hub.emitIfDue]
    split <;> exact ⟨rfl, rfl⟩

namespace Server

open Transition

structure Paces (b s : Server) : Prop where
  paced : Paced b s.startMs s.now s.hub.snapshotRequested s.hub.snapshotRequestedMs
    s.lastBroadcast s.broadcastSnapshot s.stamps s.requests s.broadcast
  counted : s.distributed.length + s.broadcast.owes ≤ s.stamps.length + s.stop.joined.toNat ∧
    s.stamps.length ≤ s.distributed.length + s.broadcast.owes

variable {b s : Server}

theorem no_cause {P : Cause → Prop} : ∀ cause ∈ (none : Option Cause), P cause :=
  fun _ h => absurd h (by simp)

theorem paces_closeSocket {sock : ℕ} (h : Paces b s) : (s.closeSocket sock).Keeps (Paces b) := by
  rw [closeSocket]
  split
  · exact ⟨h.paced, h.counted⟩
  · trivial

theorem paces_tick (h : Paces b s) : s.tick.Keeps (Paces b) := ⟨h.paced.tick, h.counted⟩

theorem paces_changeHub (h : Paces b s) (change : HubChange) :
    (s.changeHub change).Keeps (Paces b) := by
  obtain ⟨hrequested, hrequestedMs⟩ := snapshot_apply change s.now s.hub
  refine ⟨?_, h.counted⟩
  have hpaced := h.paced
  rw [← hrequested, ← hrequestedMs] at hpaced
  exact hpaced

theorem paces_acceptLoop (h : Paces b s) : s.acceptLoop.Keeps (Paces b) := by
  rw [acceptLoop]
  split
  · exact ⟨h.paced, h.counted⟩
  · trivial

theorem paces_acceptClient (h : Paces b s) (sock : ℕ) : (s.acceptClient sock).Keeps (Paces b) := by
  rw [acceptClient]
  split
  · exact ⟨h.paced, h.counted⟩
  · trivial

theorem paces_acceptFailed (h : Paces b s) : s.acceptFailed.Keeps (Paces b) := by
  rw [acceptFailed]
  split
  · exact ⟨h.paced, h.counted⟩
  · trivial

theorem paces_admitClient (h : Paces b s) (nonBlocking : Bool) :
    (s.admitClient nonBlocking).Keeps (Paces b) := by
  rw [admitClient]
  split
  · split
    · apply paces_closeSocket
      exact ⟨h.paced, h.counted⟩
    · split
      · trivial
      · exact ⟨h.paced, h.counted⟩
  · trivial

theorem paces_broadcastLoop (h : Paces b s) : s.broadcastLoop.Keeps (Paces b) := by
  rw [broadcastLoop]
  split
  · rename_i hbroadcast
    have hcounted := h.counted
    rw [hbroadcast] at hcounted
    split
    · exact ⟨h.paced.goOn no_cause, hcounted⟩
    · exact ⟨h.paced.goOn no_cause, hcounted⟩
  · trivial

theorem paces_wake (h : Paces b s) : s.wake.Keeps (Paces b) := by
  rw [wake]
  split
  · rename_i deadline hbroadcast
    have hcounted := h.counted
    rw [hbroadcast] at hcounted
    split
    · exact ⟨h.paced.goOn no_cause, hcounted⟩
    · split
      · exact ⟨h.paced.goOn no_cause, hcounted⟩
      · trivial
  · trivial

theorem paces_drain (h : Paces b s) (poll : Poll) : (s.drain poll).Keeps (Paces b) := by
  rw [drain]
  split
  · rename_i i dead hbroadcast
    have hcounted := h.counted
    rw [hbroadcast] at hcounted
    split
    · exact ⟨h.paced.goOn no_cause, hcounted⟩
    · split
      · split
        · exact ⟨h.paced.goOn no_cause, hcounted⟩
        · exact ⟨h.paced.goOn no_cause, hcounted⟩
      · trivial
  · trivial

theorem requests_takeCommand {kind : ControlKind} {value : UInt32}
    (h : (s.hub.applyControlFromClient kind value s.now).1.snapshotRequested =
      s.hub.snapshotRequested) :
    (s.takeCommand (.control kind value)).1.requests = s.requests := by
  simp [takeCommand, h]

/-- A snapshot request is counted when it is accepted. -/
theorem paced_takeCommand (h : Paces b s) (command : Command) {broadcast : BroadcastPoint}
    (hcause : broadcast.cause = none) :
    Paced b s.startMs s.now (s.takeCommand command).1.hub.snapshotRequested
      (s.takeCommand command).1.hub.snapshotRequestedMs s.lastBroadcast s.broadcastSnapshot
      s.stamps (s.takeCommand command).1.requests broadcast := by
  have hgoesOn : Paced b s.startMs s.now s.hub.snapshotRequested s.hub.snapshotRequestedMs
      s.lastBroadcast s.broadcastSnapshot s.stamps s.requests broadcast := by
    apply h.paced.goOn
    rw [hcause]
    exact no_cause
  cases command with
  | mark label => exact hgoesOn
  | control kind value =>
    cases kind with
    | SNAPSHOT =>
      by_cases hsoon : s.hub.snapshotRequested ≠ 0 ∧ s.now - s.hub.snapshotRequestedMs < 50
      · have hrefused : s.hub.applyControlFromClient .SNAPSHOT value s.now = (s.hub, none) :=
          if_pos hsoon
        rw [requests_takeCommand (by rw [hrefused])]
        simp only [takeCommand, hrefused]
        exact hgoesOn
      · have hnew : s.hub.snapshotRequested + 1 ≠ s.hub.snapshotRequested := by simp
        simp only [takeCommand, Hub.applyControlFromClient, if_neg hsoon]
        rw [if_pos hnew]
        exact h.paced.request hcause hsoon
    | SET_INTERVAL_MS | PAUSE | RESUME | UNSPECIFIED | BE_NODE_SENTINEL =>
      rw [requests_takeCommand rfl]
      exact hgoesOn

theorem paces_applyCommand (h : Paces b s) : s.applyCommand.Keeps (Paces b) := by
  rw [applyCommand]
  split
  · rename_i i dead command commands hbroadcast
    have hcounted := h.counted
    rw [hbroadcast] at hcounted
    split
    · trivial
    · have hcause : (BroadcastPoint.applying i dead commands
          (s.takeCommand command).2).cause = none := rfl
      have hpaced := paced_takeCommand h command hcause
      cases command with
      | mark label => exact ⟨hpaced, hcounted⟩
      | control kind value => exact ⟨hpaced, hcounted⟩
  · trivial

theorem paces_queueCommand (h : Paces b s) : s.queueCommand.Keeps (Paces b) := by
  rw [queueCommand]
  split
  · rename_i i dead commands message hbroadcast
    have hcounted := h.counted
    rw [hbroadcast] at hcounted
    exact ⟨h.paced.goOn no_cause, hcounted⟩
  · trivial

theorem paces_nextClient (h : Paces b s) : s.nextClient.Keeps (Paces b) := by
  rw [nextClient]
  split
  · rename_i i dead hbroadcast
    have hcounted := h.counted
    rw [hbroadcast] at hcounted
    exact ⟨h.paced.goOn no_cause, hcounted⟩
  · trivial

theorem paces_testDue (h : Paces b s) : s.testDue.Keeps (Paces b) := by
  rw [testDue]
  split
  · rename_i dead hbroadcast
    have hcounted := h.counted
    rw [hbroadcast] at hcounted
    split
    · rename_i hready
      refine ⟨h.paced.goOn ?_, hcounted⟩
      rintro _ ⟨⟩
      exact ⟨rfl, hready.1⟩
    · split
      · rename_i hdue
        refine ⟨h.paced.goOn ?_, hcounted⟩
        rintro _ ⟨⟩
        exact ⟨Nat.le_max_right _ _, hdue⟩
      · exact ⟨h.paced.goOn no_cause, hcounted⟩
  · trivial

theorem paces_stamp (h : Paces b s) : s.stamp.Keeps (Paces b) := by
  rw [stamp]
  split
  · rename_i dead id hbroadcast
    obtain ⟨hpaced, hcounted⟩ := h
    rw [hbroadcast] at hpaced hcounted
    refine ⟨hpaced.stampSnapshot rfl, ?_⟩
    simp only [BroadcastPoint.owes, List.length_cons] at hcounted ⊢
    omega
  · rename_i dead intervalMs hbroadcast
    obtain ⟨hpaced, hcounted⟩ := h
    rw [hbroadcast] at hpaced hcounted
    refine ⟨hpaced.stampDue rfl, ?_⟩
    simp only [BroadcastPoint.owes, List.length_cons] at hcounted ⊢
    omega
  · trivial

theorem paces_build (h : Paces b s) (readings : HubReadings) :
    (s.build readings).Keeps (Paces b) := by
  rw [build]
  split
  · rename_i dead withFrames hbroadcast
    have hcounted := h.counted
    rw [hbroadcast] at hcounted
    exact ⟨h.paced.goOn no_cause, hcounted⟩
  · trivial

theorem paces_startDistributing (h : Paces b s) : s.startDistributing.Keeps (Paces b) := by
  rw [startDistributing]
  split
  · rename_i dead line hbroadcast
    have hcounted := h.counted
    rw [hbroadcast] at hcounted
    refine ⟨h.paced.goOn no_cause, ?_⟩
    simp only [BroadcastPoint.owes, List.length_append] at hcounted ⊢
    omega
  · trivial

theorem paces_distribute (h : Paces b s) (sender : Sender) :
    (s.distribute sender).Keeps (Paces b) := by
  rw [distribute]
  split
  · rename_i i dead line backlog hbroadcast
    have hcounted := h.counted
    rw [hbroadcast] at hcounted
    split
    · exact ⟨h.paced.goOn no_cause, hcounted⟩
    · split
      · exact ⟨h.paced.goOn no_cause, hcounted⟩
      · split
        · dsimp only
          split
          · exact ⟨h.paced.goOn no_cause, hcounted⟩
          · exact ⟨h.paced.goOn no_cause, hcounted⟩
        · trivial
  · trivial

theorem paces_closeDead (h : Paces b s) : s.closeDead.Keeps (Paces b) := by
  rw [closeDead]
  split
  · rename_i sock dead hbroadcast
    have hcounted := h.counted
    rw [hbroadcast] at hcounted
    apply paces_closeSocket
    exact ⟨h.paced.goOn no_cause, hcounted⟩
  · rename_i hbroadcast
    have hcounted := h.counted
    rw [hbroadcast] at hcounted
    exact ⟨h.paced.goOn no_cause, hcounted⟩
  · trivial

theorem paces_stopRunning (h : Paces b s) : s.stopRunning.Keeps (Paces b) := by
  rw [stopRunning]
  split
  · rename_i hstop
    have hcounted := h.counted
    rw [hstop] at hcounted
    exact ⟨h.paced, hcounted⟩
  · trivial

theorem paces_shutListener (h : Paces b s) : s.shutListener.Keeps (Paces b) := by
  rw [shutListener]
  split
  · rename_i hstop
    have hcounted := h.counted
    rw [hstop] at hcounted
    exact ⟨h.paced, hcounted⟩
  · trivial

theorem paces_finish (h : Paces b s) (readings : HubReadings) :
    (s.finish readings).Keeps (Paces b) := by
  rw [finish]
  split
  · rename_i hguard
    have hcounted := h.counted
    rw [hguard.1, hguard.2.2] at hcounted
    simp only [BroadcastPoint.owes, StopPoint.joined, Bool.toNat_false, Nat.add_zero] at hcounted
    split
    · refine ⟨h.paced, ?_⟩
      simp only [hguard.2.2, BroadcastPoint.owes, StopPoint.joined, Bool.toNat_true]
      omega
    · refine ⟨h.paced, ?_⟩
      simp only [hguard.2.2, BroadcastPoint.owes, StopPoint.joined, Bool.toNat_true,
        List.length_append, List.length_singleton]
      omega
  · trivial

theorem paces_flushFinal (h : Paces b s) (senders : ℕ → Sender) :
    (s.flushFinal senders).Keeps (Paces b) := by
  rw [flushFinal]
  split
  · rename_i waiting deadline hstop
    have hcounted := h.counted
    rw [hstop] at hcounted
    split
    · exact ⟨h.paced, hcounted⟩
    · trivial
  · trivial

theorem paces_checkFinal (h : Paces b s) : s.checkFinal.Keeps (Paces b) := by
  rw [checkFinal]
  split
  · rename_i waiting deadline hstop
    have hcounted := h.counted
    rw [hstop] at hcounted
    split
    · exact ⟨h.paced, hcounted⟩
    · exact ⟨h.paced, hcounted⟩
  · trivial

theorem paces_wakeFinal (h : Paces b s) : s.wakeFinal.Keeps (Paces b) := by
  rw [wakeFinal]
  split
  · rename_i waiting deadline wakeAt hstop
    have hcounted := h.counted
    rw [hstop] at hcounted
    split
    · exact ⟨h.paced, hcounted⟩
    · trivial
  · trivial

theorem paces_closeFinal (h : Paces b s) : s.closeFinal.Keeps (Paces b) := by
  rw [closeFinal]
  split
  · rename_i sock socks hstop
    have hcounted := h.counted
    rw [hstop] at hcounted
    apply paces_closeSocket
    exact ⟨h.paced, hcounted⟩
  · rename_i hstop
    have hcounted := h.counted
    rw [hstop] at hcounted
    exact ⟨h.paced, hcounted⟩
  · trivial

theorem paces_step (event : ServerEvent) (h : Paces b s) : (step event s).Keeps (Paces b) := by
  cases event with
  | tick => exact paces_tick h
  | changeHub change => exact paces_changeHub h change
  | receiveFrame => exact ⟨h.paced, h.counted⟩
  | acceptLoop => exact paces_acceptLoop h
  | acceptClient sock => exact paces_acceptClient h sock
  | acceptFailed => exact paces_acceptFailed h
  | admitClient nonBlocking => exact paces_admitClient h nonBlocking
  | broadcastLoop => exact paces_broadcastLoop h
  | wake => exact paces_wake h
  | drain poll => exact paces_drain h poll
  | applyCommand => exact paces_applyCommand h
  | queueCommand => exact paces_queueCommand h
  | nextClient => exact paces_nextClient h
  | testDue => exact paces_testDue h
  | stamp => exact paces_stamp h
  | build readings => exact paces_build h readings
  | startDistributing => exact paces_startDistributing h
  | distribute sender => exact paces_distribute h sender
  | closeDead => exact paces_closeDead h
  | stopRunning => exact paces_stopRunning h
  | shutListener => exact paces_shutListener h
  | finish readings => exact paces_finish h readings
  | flushFinal senders => exact paces_flushFinal h senders
  | checkFinal => exact paces_checkFinal h
  | wakeFinal => exact paces_wakeFinal h
  | closeFinal => exact paces_closeFinal h

theorem Paces.refl (h : Paces b s) : Paces s s := by
  obtain ⟨hpaced, hcounted⟩ := h
  refine ⟨{ hpaced with
    since := Nat.le_refl _, stamps_since := ?_, requests_since := ?_
    snapshots := Nat.le_refl _ }, hcounted⟩
  · exact ⟨[], rfl, fun _ h => absurd h List.not_mem_nil⟩
  · exact ⟨[], rfl, fun _ h => absurd h List.not_mem_nil⟩

theorem paces_of_initial (h : serverMachine.initial s) : Paces s s := by
  obtain ⟨now, worldSize, isSentinel, notes, rfl⟩ := h
  refine ⟨?_, Nat.le_refl 0, Nat.le_refl 0⟩
  constructor
  · rfl
  · exact Nat.le_refl now
  · trivial
  · rfl
  · exact fun _ h => absurd h (by simp [started])
  · exact ⟨Nat.le_refl now, fun _ h => absurd h List.not_mem_nil⟩
  · trivial
  · exact no_cause
  · exact Nat.le_refl now
  · exact ⟨[], rfl, fun _ h => absurd h List.not_mem_nil⟩
  · exact ⟨[], rfl, fun _ h => absurd h List.not_mem_nil⟩
  · exact Nat.le_refl _

theorem paces_of_reachable (h : serverMachine.Reachable s) :
    ∃ b, serverMachine.initial b ∧ Paces b s := by
  apply h.keeps (I := fun s => ∃ b, serverMachine.initial b ∧ Paces b s)
  · intro s hs
    exact ⟨s, hs, paces_of_initial hs⟩
  · rintro s event _ ⟨b, hb, hpaces⟩ _
    cases hmoved : serverMachine.step event s with
    | moved t => exact ⟨b, hb, (paces_step event hpaces).of_moved hmoved⟩
    | blocked | raised => trivial

theorem Paces.stamps_le (h : Paces b s) : s.stamps.countP Stamp.isSnapshot + b.requests.length ≤
    b.stamps.countP Stamp.isSnapshot + 1 + s.requests.length := by
  have hsnapshots := h.paced.snapshots
  have hone := unanswered_le b.hub.snapshotRequested b.broadcastSnapshot
  omega

/-- The broadcasts at the end of an interval since `b`. -/
theorem Paces.due_le (h : Paces b s) : ∃ recent, s.stamps = recent ++ b.stamps ∧
    recent.length - recent.countP Stamp.isSnapshot ≤ (s.now - b.now) / 50 + 1 := by
  obtain ⟨recent, hstamps, hfloor⟩ := h.paced.stamps_since
  refine ⟨recent, hstamps, ?_⟩
  obtain rfl | hne := eq_or_ne recent []
  · exact Nat.zero_le _
  · have hspaced := h.paced.spaced
    rw [hstamps] at hspaced
    have hspent := le_lastTime_append hspaced hfloor hne
    rw [← hstamps, ← h.paced.last_eq, MIN_BROADCAST_INTERVAL] at hspent
    have hlast := h.paced.last_le
    omega

theorem Paces.requests_le (h : Paces b s) (hlt : s.requests.length < 4294967296) :
    s.requests.length ≤ b.requests.length + (s.now - b.now) / 50 + 1 := by
  obtain ⟨recent, hrequests, hfloor⟩ := h.paced.requests_since
  cases hhead : recent.head? with
  | none =>
    rw [hrequests, List.head?_eq_none_iff.mp hhead, List.nil_append]
    omega
  | some last =>
    have hapart := h.paced.apart
    rw [hrequests] at hapart hlt
    have hspent := le_head_of_apart hapart hfloor hlt hhead
    obtain ⟨rest, rfl⟩ := List.head?_eq_some_iff.mp hhead
    have hlast := (h.paced.latest last (by rw [hrequests]; rfl)).2
    rw [hrequests, List.length_append]
    omega

end Server

/-- How often the server has broadcast since it was started. -/
structure BroadcastCadence (s : Server) : Prop where
  spaced : Spaced s.startMs s.stamps
  /-- A request is answered by at most one line. -/
  snapshots : s.stamps.countP Stamp.isSnapshot ≤ s.requests.length
  apart : Apart s.requests
  requests : s.requests.length < 4294967296 →
    s.requests.Pairwise fun later earlier => earlier + 50 ≤ later
  /-- The last line may be the final one. -/
  lines : s.distributed.length ≤ s.stamps.length + 1
  bounded : s.requests.length < 4294967296 →
    s.distributed.length ≤ 2 * ((s.now - s.startMs) / 50) + 2
  /-- From here on. -/
  window : ∀ events t, serverMachine.run events s = some t → t.requests.length < 4294967296 →
    t.distributed.length ≤ s.distributed.length + 2 * ((t.now - s.now) / 50) + 5

/-- A line is due before a client joins, whose request is read in the round after it. -/
def requestRound : List ServerEvent :=
  [.changeHub (.setIntervalMs 0), .broadcastLoop, .acceptLoop, .acceptClient 7] ++
    List.replicate 50 .tick ++
  [.wake, .drain ⟨[], false, true⟩, .testDue, .stamp, .build .blank, .startDistributing,
    .distribute slowSender, .closeDead, .admitClient true, .broadcastLoop] ++
    List.replicate 50 .tick ++ [.wake]

theorem requestRound_runs :
    (serverMachine.run requestRound (.started 0 1 false .initial)).isSome = true := rfl

def requestRead : Server :=
  (serverMachine.run requestRound (.started 0 1 false .initial)).get requestRound_runs

def snapshotPoll : Poll := ⟨[bytes "\x7b\"kind\":\"snapshot\"\x7d" ++ [NEWLINE]], false, true⟩

def requestTaken : Server :=
  { requestRead.setClient 0 ((ClientState.connect 7 1).drained snapshotPoll []) with
    broadcast := .applying 0 [] [.control .SNAPSHOT 0] none }

/-- The request is accepted and its snapshot complete at once. -/
def snapshotLine : List ServerEvent :=
  [.applyCommand, .nextClient, .drain ⟨[], false, true⟩, .receiveFrame 0 1, .testDue, .stamp,
    .build .blank, .startDistributing]

theorem drain_snapshotPoll : requestRead.drain snapshotPoll = .moved requestTaken := by
  have hget : requestRead.clients[0]? = some (.connect 7 1) := rfl
  have hdrained : drainInbound [] snapshotPoll = some ([.control .SNAPSHOT 0], []) := by
    rw [drainInbound_eq (by decide)]
    decide
  exact drain_taken rfl hget (by decide) hdrained

end Gempba.Telemetry
