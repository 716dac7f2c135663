import Mathlib.Data.Nat.Notation

/-!
# The settings and control messages of a telemetry hub

A hub keeps the interval and the paused flag. The aggregator's hub takes
commands from the dashboard, stores a setting at once and queues a message for
the other ranks; a tick reads the messages that have arrived, emits a frame
when one is due, and fans out what is queued. Milliseconds of the steady clock
are natural numbers; the frames themselves are left out.
-/

namespace Gempba.Telemetry

set_option autoImplicit false

/-- There is an aggregator, rank 0. -/
scoped instance (priority := high) neZeroRanks (n : ℕ) : @NeZero ℕ Zero.ofOfNat0 (n + 1) :=
  ⟨Nat.succ_ne_zero n⟩

inductive ControlKind where
  | UNSPECIFIED | BE_NODE_SENTINEL | SET_INTERVAL_MS | PAUSE | RESUME | SNAPSHOT
  deriving DecidableEq, Repr

structure ControlMsg where
  kind : ControlKind
  value : UInt32
  deriving DecidableEq, Repr

/-- What the ranks have to agree on. -/
structure Settings where
  intervalMs : UInt32
  paused : Bool
  deriving DecidableEq, Repr

structure Hub where
  intervalMs : UInt32
  paused : Bool
  isSentinel : Bool
  snapshotRequested : UInt32
  snapshotRequestedMs : ℕ
  snapshotDue : UInt32
  snapshotAnswered : UInt32
  lastRankEmitMs : ℕ
  seqNo : UInt32
  pendingFanout : List ControlMsg
  deriving DecidableEq, Repr

namespace Hub

def initial (isSentinel : Bool) : Hub := ⟨500, false, isSentinel, 0, 0, 0, 0, 0, 0, []⟩

def settings (h : Hub) : Settings := ⟨h.intervalMs, h.paused⟩

def setIntervalMs (intervalMs : UInt32) (h : Hub) : Hub := { h with intervalMs }

/-- `std::clamp` to the bounds of the dashboard. -/
def clampIntervalMs (value : UInt32) : UInt32 :=
  if value < 50 then 50 else if 600000 < value then 600000 else value

/-- The hub with the setting stored, and the message that is queued next. A snapshot is queued
under the lock that guards its request number, at most one in 50 milliseconds. -/
def applyControlFromClient (kind : ControlKind) (value : UInt32) (now : ℕ) (h : Hub) :
    Hub × Option ControlMsg :=
  match kind with
  | .SET_INTERVAL_MS =>
    ({ h with intervalMs := clampIntervalMs value },
      some ⟨.SET_INTERVAL_MS, clampIntervalMs value⟩)
  | .PAUSE => ({ h with paused := true }, some ⟨.PAUSE, 0⟩)
  | .RESUME => ({ h with paused := false }, some ⟨.RESUME, 0⟩)
  | .SNAPSHOT =>
    if h.snapshotRequested ≠ 0 ∧ now - h.snapshotRequestedMs < 50 then (h, none)
    else
      let id := h.snapshotRequested + 1
      ({ h with
        snapshotRequestedMs := now
        snapshotDue := id
        snapshotRequested := id
        pendingFanout := h.pendingFanout ++ [⟨.SNAPSHOT, id⟩] }, none)
  | .UNSPECIFIED | .BE_NODE_SENTINEL => (h, none)

/-- One message read by a tick. -/
def readControl (m : ControlMsg) (h : Hub) : Hub :=
  match m.kind with
  | .UNSPECIFIED => h
  | .SET_INTERVAL_MS => { h with intervalMs := m.value }
  | .BE_NODE_SENTINEL => { h with isSentinel := true }
  | .PAUSE => { h with paused := true }
  | .RESUME => { h with paused := false }
  | .SNAPSHOT => { h with snapshotDue := m.value }

/-- The frame of a tick: on a snapshot request, or when not paused and the interval is over. -/
def emitIfDue (now : ℕ) (h : Hub) : Hub :=
  let snapshot := h.snapshotDue
  if snapshot ≠ 0 ∨ (h.paused = false ∧ h.intervalMs.toNat ≤ now - h.lastRankEmitMs) then
    { h with
      snapshotDue := 0
      snapshotAnswered := if snapshot ≠ 0 then snapshot else h.snapshotAnswered
      seqNo := h.seqNo + 1
      lastRankEmitMs := now }
  else { h with snapshotDue := 0 }

end Hub

/-- The effect of a message on the settings of the rank that reads it. -/
def Settings.read (s : Settings) (m : ControlMsg) : Settings :=
  match m.kind with
  | .SET_INTERVAL_MS => { s with intervalMs := m.value }
  | .PAUSE => { s with paused := true }
  | .RESUME => { s with paused := false }
  | .UNSPECIFIED | .BE_NODE_SENTINEL | .SNAPSHOT => s

/-- The effect of a dashboard command. -/
def Settings.command (kind : ControlKind) (value : UInt32) (s : Settings) : Settings :=
  match kind with
  | .SET_INTERVAL_MS => { s with intervalMs := Hub.clampIntervalMs value }
  | .PAUSE => { s with paused := true }
  | .RESUME => { s with paused := false }
  | .UNSPECIFIED | .BE_NODE_SENTINEL | .SNAPSHOT => s

namespace Hub

@[simp] theorem settings_readControl (m : ControlMsg) (h : Hub) :
    (h.readControl m).settings = h.settings.read m := by
  obtain ⟨kind, value⟩ := m
  cases kind <;> rfl

@[simp] theorem pendingFanout_readControl (m : ControlMsg) (h : Hub) :
    (h.readControl m).pendingFanout = h.pendingFanout := by
  obtain ⟨kind, value⟩ := m
  cases kind <;> rfl

@[simp] theorem settings_emitIfDue (now : ℕ) (h : Hub) :
    (h.emitIfDue now).settings = h.settings := by
  simp only [emitIfDue]
  split <;> rfl

@[simp] theorem pendingFanout_emitIfDue (now : ℕ) (h : Hub) :
    (h.emitIfDue now).pendingFanout = h.pendingFanout := by
  simp only [emitIfDue]
  split <;> rfl

theorem settings_applyControlFromClient (kind : ControlKind) (value : UInt32) (now : ℕ)
    (h : Hub) :
    (h.applyControlFromClient kind value now).1.settings = h.settings.command kind value := by
  cases kind with
  | SNAPSHOT =>
    rw [applyControlFromClient]
    split <;> rfl
  | SET_INTERVAL_MS | PAUSE | RESUME | UNSPECIFIED | BE_NODE_SENTINEL => rfl

/-- The messages of a command, queued at once or returned, have its effect when they are read. -/
theorem messages_applyControlFromClient (kind : ControlKind) (value : UInt32) (now : ℕ)
    (h : Hub) :
    ∃ queued, (h.applyControlFromClient kind value now).1.pendingFanout =
        h.pendingFanout ++ queued ∧
      ∀ s : Settings, (queued ++ (h.applyControlFromClient kind value now).2.toList).foldl
        Settings.read s = s.command kind value := by
  cases kind with
  | SNAPSHOT =>
    rw [applyControlFromClient]
    split
    · exact ⟨[], (List.append_nil _).symm, fun _ => rfl⟩
    · exact ⟨_, rfl, fun _ => rfl⟩
  | SET_INTERVAL_MS | PAUSE | RESUME | UNSPECIFIED | BE_NODE_SENTINEL =>
    exact ⟨[], (List.append_nil _).symm, fun _ => rfl⟩

end Hub

end Gempba.Telemetry
