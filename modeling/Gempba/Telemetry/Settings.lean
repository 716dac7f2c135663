import Gempba.Library.Machine
import Gempba.Telemetry.Hub
import Mathlib.Logic.Function.Basic

/-!
# Agreement on the telemetry settings

The aggregator is rank 0. Its settings are changed by `set_interval_ms` and by
the commands of the dashboard; a command stores the setting first and queues
its message afterwards, and the ticks of all ranks run in between. Messages to
one rank arrive in the order in which they were sent. The list of calls is
bookkeeping of the model.
-/

namespace Gempba.Telemetry

set_option autoImplicit false

/-- A call on the aggregator's hub. -/
inductive Call where
  | setIntervalMs (intervalMs : UInt32)
  | applyControlFromClient (kind : ControlKind) (value : UInt32)
  deriving DecidableEq, Repr

/-- Where the tick of a rank is; the queue is swapped out before it is sent. -/
inductive TickPoint where
  | idle
  | controls
  | fanOut
  | sending (pending : List ControlMsg)
  deriving DecidableEq, Repr

def TickPoint.pending : TickPoint → List ControlMsg
  | .sending pending => pending
  | _ => []

structure State (n : ℕ) where
  hub : Fin (n + 1) → Hub
  tick : Fin (n + 1) → TickPoint
  /-- Messages on their way to a rank. -/
  channel : Fin (n + 1) → List ControlMsg
  /-- Messages that have arrived at a rank. -/
  inbound : Fin (n + 1) → List ControlMsg
  /-- The message of a command whose setting is stored. -/
  command : Option ControlMsg
  calls : List Call

inductive Event (n : ℕ) where
  | setIntervalMs (intervalMs : UInt32)
  | applyControlFromClient (kind : ControlKind) (value : UInt32) (now : ℕ)
  | queueCommand
  | deliver (r : Fin (n + 1))
  | tickIfDue (r : Fin (n + 1))
  | tryRecvControl (r : Fin (n + 1)) (now : ℕ)
  | swapFanout (r : Fin (n + 1))
  | sendControl (r : Fin (n + 1))

namespace State

variable {n : ℕ}

abbrev Step (n : ℕ) := Transition.Outcome Empty (State n)

def setHub (r : Fin (n + 1)) (h : Hub) (s : State n) : State n :=
  { s with hub := Function.update s.hub r h }

def setTick (r : Fin (n + 1)) (p : TickPoint) (s : State n) : State n :=
  { s with tick := Function.update s.tick r p }

def setIntervalMs (intervalMs : UInt32) (s : State n) : Step n :=
  .moved { s.setHub 0 ((s.hub 0).setIntervalMs intervalMs) with
    calls := s.calls ++ [.setIntervalMs intervalMs] }

/-- One thread reads the commands of all clients. -/
def applyControlFromClient (kind : ControlKind) (value : UInt32) (now : ℕ) (s : State n) :
    Step n :=
  if s.command = none then
    .moved { s.setHub 0 ((s.hub 0).applyControlFromClient kind value now).1 with
      command := ((s.hub 0).applyControlFromClient kind value now).2
      calls := s.calls ++ [.applyControlFromClient kind value] }
  else .blocked

def queueCommand (s : State n) : Step n :=
  match s.command with
  | some m =>
    .moved { s.setHub 0 { s.hub 0 with pendingFanout := (s.hub 0).pendingFanout ++ [m] } with
      command := none }
  | none => .blocked

def deliver (r : Fin (n + 1)) (s : State n) : Step n :=
  match s.channel r with
  | m :: channel =>
    .moved { s with
      channel := Function.update s.channel r channel
      inbound := Function.update s.inbound r (s.inbound r ++ [m]) }
  | [] => .blocked

def tickIfDue (r : Fin (n + 1)) (s : State n) : Step n :=
  if s.tick r = .idle then .moved (s.setTick r .controls) else .blocked

/-- An iteration of the receiving loop, or its end and the frame that is due. -/
def tryRecvControl (r : Fin (n + 1)) (now : ℕ) (s : State n) : Step n :=
  if s.tick r = .controls then
    match s.inbound r with
    | m :: inbound =>
      .moved { s.setHub r ((s.hub r).readControl m) with
        inbound := Function.update s.inbound r inbound }
    | [] => .moved ((s.setHub r ((s.hub r).emitIfDue now)).setTick r .fanOut)
  else .blocked

def swapFanout (r : Fin (n + 1)) (s : State n) : Step n :=
  if s.tick r = .fanOut then
    .moved ((s.setHub r { s.hub r with pendingFanout := [] }).setTick r
      (.sending (s.hub r).pendingFanout))
  else .blocked

/-- One message to every other rank, or the end of the tick. -/
def sendControl (r : Fin (n + 1)) (s : State n) : Step n :=
  match s.tick r with
  | .sending (m :: pending) =>
    .moved { s.setTick r (.sending pending) with
      channel := fun id => if id = r then s.channel id else s.channel id ++ [m] }
  | .sending [] => .moved (s.setTick r .idle)
  | _ => .blocked

def step : Event n → State n → Step n
  | .setIntervalMs intervalMs => setIntervalMs intervalMs
  | .applyControlFromClient kind value now => applyControlFromClient kind value now
  | .queueCommand => queueCommand
  | .deliver r => deliver r
  | .tickIfDue r => tickIfDue r
  | .tryRecvControl r now => tryRecvControl r now
  | .swapFanout r => swapFanout r
  | .sendControl r => sendControl r

/-- Every rank after `on_runtime_ready`. -/
def start (isSentinel : Fin (n + 1) → Bool) : State n where
  hub r := .initial (isSentinel r)
  tick _ := .idle
  channel _ := []
  inbound _ := []
  command := none
  calls := []

end State

def settingsMachine (n : ℕ) : Transition.Machine (State n) (Event n) Empty where
  initial s := ∃ isSentinel, s = State.start isSentinel
  step := State.step

/-- What a call does to the settings of the aggregator. -/
def Settings.store (s : Settings) : Call → Settings
  | .setIntervalMs intervalMs => { s with intervalMs }
  | .applyControlFromClient kind value => s.command kind value

def Call.isCommand : Call → Bool
  | .setIntervalMs _ => false
  | .applyControlFromClient _ _ => true

def settingsAfter (calls : List Call) : Settings := calls.foldl Settings.store ⟨500, false⟩

theorem settingsAfter_append (calls : List Call) (c : Call) :
    settingsAfter (calls ++ [c]) = (settingsAfter calls).store c := by
  rw [settingsAfter, List.foldl_append]
  rfl

theorem paused_commands (calls : List Call) (s s' : Settings) (h : s.paused = s'.paused) :
    (calls.foldl Settings.store s).paused =
      ((calls.filter Call.isCommand).foldl Settings.store s').paused := by
  induction calls generalizing s s' with
  | nil => exact h
  | cons c calls ih =>
    cases c with
    | setIntervalMs intervalMs => exact ih _ _ h
    | applyControlFromClient kind value =>
      apply ih
      cases kind <;> first | rfl | exact h

namespace State

variable {n : ℕ} {s t : State n}

/-- What a rank has yet to read, in the order in which it will. -/
def outstanding (s : State n) (r : Fin (n + 1)) : List ControlMsg :=
  s.inbound r ++ s.channel r ++ (s.tick 0).pending ++ (s.hub 0).pendingFanout ++ s.command.toList

structure Invariant (s : State n) : Prop where
  aggregator : (s.hub 0).settings = settingsAfter s.calls
  others : ∀ r, r ≠ 0 → (s.outstanding r).foldl Settings.read (s.hub r).settings =
    settingsAfter (s.calls.filter Call.isCommand)
  quiet : ∀ r, r ≠ 0 → (s.hub r).pendingFanout = [] ∧ (s.tick r).pending = []
  alone : s.channel 0 = [] ∧ s.inbound 0 = []

theorem invariant_start (isSentinel : Fin (n + 1) → Bool) : Invariant (start isSentinel) where
  aggregator := rfl
  others _ _ := rfl
  quiet _ _ := ⟨rfl, rfl⟩
  alone := ⟨rfl, rfl⟩

@[simp] theorem hub_setHub_self (r : Fin (n + 1)) (h : Hub) (s : State n) :
    (s.setHub r h).hub r = h := by
  simp only [setHub, Function.update_self]

@[simp] theorem hub_setHub_ne {r r' : Fin (n + 1)} (hr : r' ≠ r) (h : Hub) (s : State n) :
    (s.setHub r h).hub r' = s.hub r' := by
  simp only [setHub, Function.update_of_ne hr]

@[simp] theorem tick_setTick_self (r : Fin (n + 1)) (p : TickPoint) (s : State n) :
    (s.setTick r p).tick r = p := by
  simp only [setTick, Function.update_self]

@[simp] theorem tick_setTick_ne {r r' : Fin (n + 1)} (hr : r' ≠ r) (p : TickPoint)
    (s : State n) : (s.setTick r p).tick r' = s.tick r' := by
  simp only [setTick, Function.update_of_ne hr]

@[simp] theorem hub_setTick (r r' : Fin (n + 1)) (p : TickPoint) (s : State n) :
    (s.setTick r p).hub r' = s.hub r' := rfl

@[simp] theorem tick_setHub (r r' : Fin (n + 1)) (h : Hub) (s : State n) :
    (s.setHub r h).tick r' = s.tick r' := rfl

namespace Invariant

theorem setIntervalMs (h : Invariant s) {intervalMs : UInt32}
    (ht : s.setIntervalMs intervalMs = .moved t) : Invariant t := by
  cases ht
  refine ⟨?_, fun r hr => ?_, fun r hr => ?_, h.alone⟩
  · rw [settingsAfter_append, ← h.aggregator, hub_setHub_self]
    rfl
  · have hcommands : (s.calls ++ [Call.setIntervalMs intervalMs]).filter Call.isCommand =
        s.calls.filter Call.isCommand := by
      rw [List.filter_append]
      exact List.append_nil _
    rw [hcommands, ← h.others r hr, hub_setHub_ne hr, outstanding, hub_setHub_self]
    rfl
  · rw [hub_setHub_ne hr]
    exact h.quiet r hr

theorem applyControlFromClient (h : Invariant s) {kind : ControlKind} {value : UInt32} {now : ℕ}
    (ht : s.applyControlFromClient kind value now = .moved t) : Invariant t := by
  rw [State.applyControlFromClient] at ht
  split at ht
  · rename_i hcommand
    cases ht
    obtain ⟨queued, hqueued, hread⟩ := (s.hub 0).messages_applyControlFromClient kind value now
    refine ⟨?_, fun r hr => ?_, fun r hr => ?_, h.alone⟩
    · rw [settingsAfter_append, ← h.aggregator, hub_setHub_self,
        Hub.settings_applyControlFromClient]
      rfl
    · have hcommands : (s.calls ++ [Call.applyControlFromClient kind value]).filter
          Call.isCommand = s.calls.filter Call.isCommand ++ [.applyControlFromClient kind value] :=
        List.filter_append ..
      have hold := h.others r hr
      rw [outstanding, hcommand, Option.toList_none, List.append_nil] at hold
      rw [hcommands, settingsAfter_append, ← hold, hub_setHub_ne hr, outstanding,
        hub_setHub_self, hqueued, ← List.append_assoc, List.append_assoc, List.foldl_append, hread]
      rfl
    · rw [hub_setHub_ne hr]
      exact h.quiet r hr
  · cases ht

theorem queueCommand (h : Invariant s) (ht : s.queueCommand = .moved t) : Invariant t := by
  rw [State.queueCommand] at ht
  split at ht
  · rename_i m hcommand
    cases ht
    refine ⟨?_, fun r hr => ?_, fun r hr => ?_, h.alone⟩
    · refine Eq.trans ?_ h.aggregator
      rw [hub_setHub_self]
      rfl
    · refine Eq.trans ?_ (h.others r hr)
      rw [hub_setHub_ne hr, outstanding, outstanding, hcommand, hub_setHub_self,
        Option.toList_none, List.append_nil, ← List.append_assoc]
      rfl
    · rw [hub_setHub_ne hr]
      exact h.quiet r hr
  · cases ht

theorem deliver (h : Invariant s) {r : Fin (n + 1)} (ht : s.deliver r = .moved t) :
    Invariant t := by
  rw [State.deliver] at ht
  split at ht
  · rename_i m channel hchannel
    cases ht
    have hr : r ≠ 0 := by
      rintro rfl
      rw [h.alone.1] at hchannel
      cases hchannel
    refine ⟨h.aggregator, fun r' hr' => ?_, h.quiet, ?_, ?_⟩
    · rw [← h.others r' hr', outstanding, outstanding]
      obtain rfl | hne := eq_or_ne r' r
      · simp [hchannel]
      · simp [Function.update_of_ne hne]
    · rw [← h.alone.1]
      exact Function.update_of_ne hr.symm _ _
    · rw [← h.alone.2]
      exact Function.update_of_ne hr.symm _ _
  · cases ht

theorem tickIfDue (h : Invariant s) {r : Fin (n + 1)} (ht : s.tickIfDue r = .moved t) :
    Invariant t := by
  rw [State.tickIfDue] at ht
  split at ht
  · rename_i hidle
    cases ht
    have hpending : ∀ r', ((s.setTick r .controls).tick r').pending = (s.tick r').pending := by
      intro r'
      obtain rfl | hne := eq_or_ne r' r
      · rw [tick_setTick_self, hidle]
        rfl
      · rw [tick_setTick_ne hne]
    refine ⟨h.aggregator, fun r' hr' => ?_, fun r' hr' => ?_, h.alone⟩
    · refine Eq.trans ?_ (h.others r' hr')
      rw [outstanding, hpending]
      rfl
    · rw [hpending]
      exact h.quiet r' hr'
  · cases ht

theorem tryRecvControl (h : Invariant s) {r : Fin (n + 1)} {now : ℕ}
    (ht : s.tryRecvControl r now = .moved t) : Invariant t := by
  rw [State.tryRecvControl] at ht
  split at ht
  · rename_i hcontrols
    split at ht
    · rename_i m inbound hinbound
      cases ht
      have hr : r ≠ 0 := by
        rintro rfl
        rw [h.alone.2] at hinbound
        cases hinbound
      refine ⟨?_, fun r' hr' => ?_, fun r' hr' => ?_, h.alone.1, ?_⟩
      · refine Eq.trans ?_ h.aggregator
        rw [hub_setHub_ne hr.symm]
      · refine Eq.trans ?_ (h.others r' hr')
        rw [outstanding, outstanding, hub_setHub_ne hr.symm]
        obtain rfl | hne := eq_or_ne r' r
        · simp only [hub_setHub_self, Function.update_self, hinbound, Hub.settings_readControl]
          rfl
        · simp only [hub_setHub_ne hne, Function.update_of_ne hne]
          rfl
      · obtain rfl | hne := eq_or_ne r' r
        · rw [hub_setHub_self, Hub.pendingFanout_readControl]
          exact h.quiet r' hr'
        · rw [hub_setHub_ne hne]
          exact h.quiet r' hr'
      · refine Eq.trans ?_ h.alone.2
        exact Function.update_of_ne hr.symm _ _
    · cases ht
      have hhub : ∀ r', (s.setHub r ((s.hub r).emitIfDue now)).hub r' = s.hub r' ∨
          (s.setHub r ((s.hub r).emitIfDue now)).hub r' = (s.hub r').emitIfDue now := by
        intro r'
        obtain rfl | hne := eq_or_ne r' r
        · exact Or.inr (hub_setHub_self ..)
        · exact Or.inl (hub_setHub_ne hne ..)
      have hsettings : ∀ r', ((s.setHub r ((s.hub r).emitIfDue now)).hub r').settings =
          (s.hub r').settings := by
        intro r'
        obtain he | he := hhub r'
        · rw [he]
        · rw [he, Hub.settings_emitIfDue]
      have hfanout : ∀ r', ((s.setHub r ((s.hub r).emitIfDue now)).hub r').pendingFanout =
          (s.hub r').pendingFanout := by
        intro r'
        obtain he | he := hhub r'
        · rw [he]
        · rw [he, Hub.pendingFanout_emitIfDue]
      have hpending : ∀ r', (((s.setHub r ((s.hub r).emitIfDue now)).setTick r .fanOut).tick
          r').pending = (s.tick r').pending := by
        intro r'
        obtain rfl | hne := eq_or_ne r' r
        · rw [tick_setTick_self, hcontrols]
          rfl
        · rw [tick_setTick_ne hne, tick_setHub]
      refine ⟨?_, fun r' hr' => ?_, fun r' hr' => ?_, h.alone⟩
      · exact (hsettings 0).trans h.aggregator
      · refine Eq.trans ?_ (h.others r' hr')
        rw [outstanding, outstanding, hpending, hub_setTick, hub_setTick, hsettings, hfanout]
        rfl
      · rw [hpending, hub_setTick, hfanout]
        exact h.quiet r' hr'
  · cases ht

theorem swapFanout (h : Invariant s) {r : Fin (n + 1)} (ht : s.swapFanout r = .moved t) :
    Invariant t := by
  rw [State.swapFanout] at ht
  split at ht
  · rename_i hfanOut
    cases ht
    refine ⟨?_, fun r' hr' => ?_, fun r' hr' => ?_, h.alone⟩
    · refine Eq.trans ?_ h.aggregator
      rw [hub_setTick]
      obtain rfl | hne := eq_or_ne 0 r
      · rw [hub_setHub_self]
        rfl
      · rw [hub_setHub_ne hne]
    · refine Eq.trans ?_ (h.others r' hr')
      rw [outstanding, outstanding, hub_setTick, hub_setTick]
      obtain rfl | hne := eq_or_ne 0 r
      · rw [hub_setHub_self, hub_setHub_ne hr', tick_setTick_self, hfanOut]
        simp only [TickPoint.pending, List.append_nil]
        rfl
      · rw [hub_setHub_ne hne, tick_setTick_ne hne]
        obtain rfl | hne' := eq_or_ne r' r
        · rw [hub_setHub_self]
          rfl
        · rw [hub_setHub_ne hne']
          rfl
    · rw [hub_setTick]
      obtain rfl | hne := eq_or_ne r' r
      · rw [hub_setHub_self, tick_setTick_self]
        exact ⟨rfl, (h.quiet r' hr').1⟩
      · rw [hub_setHub_ne hne, tick_setTick_ne hne]
        exact h.quiet r' hr'
  · cases ht

theorem sendControl (h : Invariant s) {r : Fin (n + 1)} (ht : s.sendControl r = .moved t) :
    Invariant t := by
  rw [State.sendControl] at ht
  split at ht
  · rename_i m pending hsending
    cases ht
    have hr : r = 0 := by
      by_contra hne
      have hquiet := (h.quiet r hne).2
      rw [hsending] at hquiet
      cases hquiet
    subst hr
    refine ⟨h.aggregator, fun r' hr' => ?_, fun r' hr' => ?_, ?_, h.alone.2⟩
    · refine Eq.trans ?_ (h.others r' hr')
      simp only [outstanding, tick_setTick_self, if_neg hr', hsending, TickPoint.pending,
        List.append_assoc, List.cons_append, List.nil_append]
      rfl
    · rw [tick_setTick_ne hr']
      exact h.quiet r' hr'
    · refine Eq.trans ?_ h.alone.1
      simp only [if_pos]
  · rename_i hsending
    cases ht
    have hpending : ∀ r', ((s.setTick r .idle).tick r').pending = (s.tick r').pending := by
      intro r'
      obtain rfl | hne := eq_or_ne r' r
      · rw [tick_setTick_self, hsending]
        rfl
      · rw [tick_setTick_ne hne]
    refine ⟨h.aggregator, fun r' hr' => ?_, fun r' hr' => ?_, h.alone⟩
    · refine Eq.trans ?_ (h.others r' hr')
      rw [outstanding, hpending]
      rfl
    · rw [hpending]
      exact h.quiet r' hr'
  · cases ht

theorem step (h : Invariant s) (e : Event n) (ht : State.step e s = .moved t) : Invariant t := by
  cases e with
  | setIntervalMs intervalMs => exact h.setIntervalMs ht
  | applyControlFromClient kind value now => exact h.applyControlFromClient ht
  | queueCommand => exact h.queueCommand ht
  | deliver r => exact h.deliver ht
  | tickIfDue r => exact h.tickIfDue ht
  | tryRecvControl r now => exact h.tryRecvControl ht
  | swapFanout r => exact h.swapFanout ht
  | sendControl r => exact h.sendControl ht

end Invariant

theorem invariant_of_reachable (h : (settingsMachine n).Reachable s) : Invariant s :=
  h.invariant (fun _ ⟨isSentinel, hs⟩ => hs ▸ invariant_start isSentinel)
    (fun _ e _ _ hs _ ht => hs.step e ht)

/-- Every queued message has been fanned out, delivered and read. -/
def Settled (s : State n) : Prop :=
  s.command = none ∧ ∀ r, (s.hub r).pendingFanout = [] ∧ (s.tick r).pending = [] ∧
    s.channel r = [] ∧ s.inbound r = []

def Agreed (s : State n) : Prop := ∀ r, (s.hub r).settings = (s.hub 0).settings

/-- There is no other rank, or the last interval set is the last one set by a command. -/
def Announced (s : State n) : Prop :=
  n = 0 ∨ (settingsAfter s.calls).intervalMs =
    (settingsAfter (s.calls.filter Call.isCommand)).intervalMs

/-- In a settled state the ranks agree exactly when the last interval has been announced. -/
theorem agreed_iff_announced (h : (settingsMachine n).Reachable s) (hsettled : Settled s) :
    Agreed s ↔ Announced s := by
  have hinv := invariant_of_reachable h
  have hothers : ∀ r, r ≠ 0 →
      (s.hub r).settings = settingsAfter (s.calls.filter Call.isCommand) := by
    intro r hr
    have houtstanding : s.outstanding r = [] := by
      rw [outstanding, (hsettled.2 r).2.2.2, (hsettled.2 r).2.2.1, (hsettled.2 0).2.1,
        (hsettled.2 0).1, hsettled.1]
      rfl
    rw [← hinv.others r hr, houtstanding]
    rfl
  have hpaused : (settingsAfter s.calls).paused =
      (settingsAfter (s.calls.filter Call.isCommand)).paused := paused_commands _ _ _ rfl
  constructor
  · intro hagreed
    obtain hn | hn := Nat.eq_zero_or_pos n
    · exact Or.inl hn
    · have hlast : Fin.last n ≠ 0 := Fin.ne_of_gt (Fin.lt_def.mpr hn)
      have hsame := hagreed (Fin.last n)
      rw [hothers _ hlast, hinv.aggregator] at hsame
      exact Or.inr (congrArg Settings.intervalMs hsame.symm)
  · rintro (rfl | hinterval) r
    · have hr : r = 0 := Fin.ext (by omega)
      rw [hr]
    · obtain rfl | hr := eq_or_ne r 0
      · rfl
      · rw [hothers r hr, hinv.aggregator]
        exact congrArg₂ Settings.mk hinterval.symm hpaused.symm

/-- A command for the shortest interval reaches the rank. -/
def announcedTo (r : Fin (n + 1)) : List (Event n) :=
  [.applyControlFromClient .SET_INTERVAL_MS 20 0, .queueCommand, .tickIfDue 0,
    .tryRecvControl 0 0, .swapFanout 0, .sendControl 0, .deliver r, .tickIfDue r,
    .tryRecvControl r 0]

def announcedInterval : List (Event 1) := announcedTo (Fin.last 1)

theorem announcedInterval_runs : ((settingsMachine 1).run announcedInterval
    (start fun _ => false)).isSome = true := by
  decide

instance (s : State n) : Decidable s.Settled := by
  unfold Settled
  infer_instance

instance (s : State n) : Decidable s.Agreed := by
  unfold Agreed
  infer_instance

theorem agreed_iff_announced_announcedInterval :
    Agreed (((settingsMachine 1).run announcedInterval (start fun _ => false)).get
      announcedInterval_runs) := by
  have hstart : (settingsMachine 1).Reachable (start fun _ => false) := .start ⟨_, rfl⟩
  have hrun := hstart.run (Option.some_get announcedInterval_runs).symm
  exact (agreed_iff_announced hrun (by decide)).mpr (Or.inr (by decide))

/-- The user sets an interval on the aggregator of two ranks, and no message is sent. -/
theorem interval_not_announced : ∃ s : State 1, (settingsMachine 1).Reachable s ∧ Settled s ∧
    s.calls = [.setIntervalMs 100] ∧ (s.hub 0).intervalMs = 100 ∧ (s.hub 1).intervalMs = 500 ∧
      ¬ Agreed s := by
  have hstart : (settingsMachine 1).Reachable (start fun _ => false) := .start ⟨_, rfl⟩
  exact ⟨_, hstart.tail (l := .setIntervalMs 100) trivial rfl, by decide, rfl, rfl, rfl, by decide⟩

end State

end Gempba.Telemetry
