import Gempba.Schedulers.ProtocolInvariant

/-!
# The semi-centralized scheduler as a machine

Workers feed one another directly. The ranks a worker may feed arrive as
`NEXT_PROCESS` messages on their own communicator; here the environment
supplies them. The score communicator does not touch this state.
-/

namespace Gempba.SemiCentralized

set_option autoImplicit false

variable {W : World}

abbrev State (W : World) := SchedulerState W (SemiOutbox (WorkerRank W))

abbrev Step (W : World) := Transition.Outcome Fault (State W)

def sendSeed (seed : TaskBundle) : State W := .sendSeed (.initial W.size) seed

inductive Event (W : World) where
  | receiveNextProcess (w : WorkerRank W) (ranks : List (WorkerRank W))
  | processMessage (w : WorkerRank W) (source : Rank W) (bundle : TaskBundle)
  | poll (w : WorkerRank W) (ranks : Option (List (WorkerRank W)))
  | push (w : WorkerRank W) (packet : TaskPacket) (functionId : ℤ)
  | send (w : WorkerRank W)
  | leaveFunnel (w : WorkerRank W)
  | receiveAck (w : WorkerRank W) (source : Rank W)
  | processTermination (w : WorkerRank W)
  | sendFinalSolution (w : WorkerRank W) (report : Report)
  | centerState (w : WorkerRank W) (tag : StateTag)
  | centerAck (source : Rank W)
  | centerBarrier
  | receiveSolutionFrom (w : WorkerRank W) (tag : ProbedTag)

/-- `NEXT_PROCESS` in the main loop of a worker. -/
def receiveNextProcess (w : WorkerRank W) (ranks : List (WorkerRank W)) (s : State W) : Step W :=
  s.updateOutbox [.receiving] (·.receiveNextProcess ranks) w

/-- The poll section of the funnel. -/
def poll (w : WorkerRank W) (ranks : Option (List (WorkerRank W))) (s : State W) : Step W :=
  s.updateOutbox [.executing] (·.pollSection ranks) w

def push (w : WorkerRank W) (packet : TaskPacket) (functionId : ℤ) (s : State W) : Step W :=
  s.push (·.tryOpenTransmissionChannel) (·.forcePush packet functionId) w

/-- A task goes to the worker that `m_destination_rank` names. -/
def sendSection (w : WorkerRank W) (o : SemiOutbox (WorkerRank W)) :
    Option (Except Fault (Rank W × TaskBundle × SemiOutbox (WorkerRank W))) :=
  (o.sendSection w).map fun sent => sent.map fun (destination, rest) => (destination.val, rest)

def send (w : WorkerRank W) (s : State W) : Step W := s.send (sendSection w) w

/-- `TASK_RECEIVED` at the center, with the exit test of the receive loop. -/
def centerAck (source : Rank W) (s : State W) : Step W :=
  (s.centerAck source).map fun s => if s.deficit = 0 then s.notifyTermination else s

def step : Event W → State W → Step W
  | .receiveNextProcess w ranks => receiveNextProcess w ranks
  | .processMessage w source bundle => fun s => s.processMessage w source bundle
  | .poll w ranks => poll w ranks
  | .push w packet functionId => push w packet functionId
  | .send w => send w
  | .leaveFunnel w => fun s => s.leaveFunnel w
  | .receiveAck w source => fun s => s.receiveAck w source
  | .processTermination w => fun s => s.processTermination w
  | .sendFinalSolution w report => fun s => s.sendFinalSolution w report
  | .centerState w tag => fun s => s.consumeIntFlag w tag
  | .centerAck source => centerAck source
  | .centerBarrier => fun s => s.centerBarrier
  | .receiveSolutionFrom w tag => fun s => s.receiveSolutionFrom w tag

def machine (W : World) : Transition.Machine (State W) (Event W) Fault where
  initial s := ∃ seed, s = sendSeed seed
  step := step

/-- The center stays in its loop exactly as long as it is owed an acknowledgement. -/
structure Invariant (s : State W) : Prop where
  sound : s.Sound
  waiting : s.centerPhase = .receiving → s.deficit ≠ 0

variable {s t : State W}

theorem invariant_sendSeed (seed : TaskBundle) : Invariant (sendSeed seed : State W) where
  sound := SchedulerState.sound_sendSeed rfl seed
  waiting _ := by simp [sendSeed]

theorem forcePush_consistent {packet : TaskPacket} {functionId : ℤ}
    (o o' : SemiOutbox (WorkerRank W)) (h : o.forcePush packet functionId = .ok o') :
    (Outbox.outgoing o').Consistent := by
  obtain ⟨_, _, _, rfl⟩ := SemiOutbox.forcePush_eq_ok h
  rfl

theorem sendSection_initial {w : WorkerRank W} (o : SemiOutbox (WorkerRank W)) (r : Rank W)
    (bundle : TaskBundle) (o' : SemiOutbox (WorkerRank W))
    (h : sendSection w o = some (.ok (r, bundle, o'))) : Outbox.outgoing o' = .initial := by
  unfold sendSection at h
  cases hsend : o.sendSection w with
  | none => simp [hsend] at h
  | some sent =>
    cases sent with
    | error e => simp [hsend, Except.map] at h
    | ok sent =>
      obtain ⟨destination, b, rest⟩ := sent
      simp only [hsend, Option.map_some, Except.map, Option.some.injEq, Except.ok.injEq,
        Prod.mk.injEq] at h
      obtain ⟨_, _, rfl⟩ := h
      obtain ⟨_, _, _, rfl⟩ := SemiOutbox.sendSection_eq_ok hsend
      rfl

namespace Invariant

theorem ofWorker (h : Invariant s) (ht : t.Sound) (hcenter : SchedulerState.SameCenter s t) :
    Invariant t :=
  ⟨ht, fun hphase => by
    rw [hcenter.deficit]
    exact h.waiting (hcenter.centerPhase ▸ hphase)⟩

theorem ofExited (ht : t.Sound) (hphase : t.centerPhase ≠ .receiving) : Invariant t :=
  ⟨ht, fun hreceiving => absurd hreceiving hphase⟩

theorem centerAck (h : Invariant s) {source : Rank W} (ht : centerAck source s = .moved t) :
    Invariant t := by
  obtain ⟨u, hack, rfl⟩ := Transition.Outcome.map_eq_moved.mp ht
  have hsound := h.sound.centerAck hack
  split
  · rename_i hzero
    exact ofExited (hsound.notifyTermination hzero) (by simp [SchedulerState.notifyTermination])
  · rename_i hzero
    exact ⟨hsound, fun _ => hzero⟩

theorem step (h : Invariant s) (e : Event W) (ht : step e s = .moved t) : Invariant t := by
  cases e with
  | receiveNextProcess w ranks =>
    exact h.ofWorker (h.sound.updateOutbox (f := (·.receiveNextProcess ranks)) (fun _ => rfl) ht)
      (SchedulerState.updateOutbox_center ht)
  | processMessage w source bundle =>
    exact h.ofWorker (h.sound.processMessage ht) (SchedulerState.processMessage_center ht)
  | poll w ranks =>
    exact h.ofWorker (h.sound.updateOutbox (fun o => o.pollSection_toOutgoing ranks) ht)
      (SchedulerState.updateOutbox_center ht)
  | push w packet functionId =>
    exact h.ofWorker (h.sound.push forcePush_consistent ht) (SchedulerState.push_center ht)
  | send w =>
    exact h.ofWorker (h.sound.send sendSection_initial ht) (SchedulerState.send_center ht)
  | leaveFunnel w =>
    exact h.ofWorker (h.sound.leaveFunnel ht) (SchedulerState.leaveFunnel_center ht)
  | receiveAck w source =>
    exact h.ofWorker (h.sound.receiveAck ht) (SchedulerState.receiveAck_center ht)
  | processTermination w =>
    exact h.ofWorker (h.sound.processTermination ht) (SchedulerState.processTermination_center ht)
  | sendFinalSolution w report =>
    exact h.ofWorker (h.sound.sendFinalSolution ht) (SchedulerState.sendFinalSolution_center ht)
  | centerState w tag =>
    exact h.ofWorker (h.sound.consumeIntFlag ht) (SchedulerState.consumeIntFlag_center ht)
  | centerAck source => exact h.centerAck ht
  | centerBarrier =>
    obtain ⟨_, _, rfl⟩ := SchedulerState.centerBarrier_moved ht
    exact ofExited (h.sound.centerBarrier ht) (by simp)
  | receiveSolutionFrom w tag =>
    apply ofExited (h.sound.receiveSolutionFrom ht)
    obtain ⟨hphase, ⟨_, _, _, rfl⟩ | ⟨_, _, _, rfl⟩⟩ := SchedulerState.receiveSolutionFrom_moved ht
    · simp [hphase]
    · exact nextPhase_ne_receiving w

/-- Only the worker's own push and send throw. -/
theorem raised_cases (h : Invariant s) {e : Event W} {f : Fault}
    (ht : SemiCentralized.step e s = .raised f) :
    (∃ w packet functionId, e = .push w packet functionId ∧
        (s.worker w).outbox.forcePush packet functionId = .error f) ∨
      ∃ w, e = .send w ∧ (s.worker w).outbox.sendSection w = some (.error f) := by
  cases e with
  | receiveNextProcess w ranks =>
    simp only [SemiCentralized.step, SemiCentralized.receiveNextProcess,
      SchedulerState.updateOutbox] at ht
    split at ht <;> cases ht
  | processMessage w source bundle =>
    simp only [SemiCentralized.step, SchedulerState.processMessage] at ht
    split at ht <;> cases ht
  | poll w ranks =>
    simp only [SemiCentralized.step, SemiCentralized.poll, SchedulerState.updateOutbox] at ht
    split at ht <;> cases ht
  | push w packet functionId =>
    exact Or.inl ⟨w, packet, functionId, rfl, SchedulerState.push_raised ht⟩
  | send w =>
    have hsend := SchedulerState.send_raised ht
    simp only [sendSection, Option.map_eq_some_iff] at hsend
    obtain ⟨sent, hsent, herror⟩ := hsend
    cases sent with
    | ok sent => simp [Except.map] at herror
    | error e =>
      cases herror
      exact Or.inr ⟨w, rfl, hsent⟩
  | leaveFunnel w =>
    simp only [SemiCentralized.step, SchedulerState.leaveFunnel] at ht
    split at ht <;> cases ht
  | receiveAck w source => exact absurd ht h.sound.receiveAck_not_raised
  | processTermination w => exact absurd ht h.sound.processTermination_not_raised
  | sendFinalSolution w report =>
    simp only [SemiCentralized.step, SchedulerState.sendFinalSolution] at ht
    split at ht <;> cases ht
  | centerState w tag =>
    simp only [SemiCentralized.step, SchedulerState.consumeIntFlag] at ht
    split at ht <;> cases ht
  | centerAck source =>
    exact absurd (Transition.Outcome.map_eq_raised.mp ht) h.sound.centerAck_not_raised
  | centerBarrier =>
    simp only [SemiCentralized.step, SchedulerState.centerBarrier] at ht
    split at ht <;> cases ht
  | receiveSolutionFrom w tag => exact absurd ht h.sound.receiveSolutionFrom_not_raised

theorem step_raised (h : Invariant s) {e : Event W} {f : Fault}
    (ht : SemiCentralized.step e s = .raised f) : f ∉ Fault.ofProtocol := by
  obtain ⟨_, _, _, _, hpush⟩ | ⟨_, _, hsend⟩ := h.raised_cases ht
  · rcases SemiOutbox.forcePush_eq_error hpush with rfl | rfl | ⟨_, rfl⟩ <;>
      simp [Fault.ofProtocol]
  · rcases SemiOutbox.sendSection_eq_error hsend with rfl | rfl | rfl | ⟨_, rfl⟩ <;>
      simp [Fault.ofProtocol]

end Invariant

theorem invariant_of_reachable (h : (machine W).Reachable s) : Invariant s :=
  h.invariant (fun _ ⟨seed, hs⟩ => hs ▸ invariant_sendSeed seed)
    (fun _ e _ _ hs _ ht => hs.step e ht)

/-- Once the center has left its receive loop nothing is left to do, and no process ever
finds a message that the protocol excludes. -/
theorem quiet_after_exit (h : (machine W).Reachable s) :
    (s.centerPhase ≠ .receiving → s.Quiet) ∧
      ∀ e f, (machine W).step e s = .raised f → f ∉ Fault.ofProtocol :=
  ⟨(invariant_of_reachable h).sound.quiet,
    fun _ _ ht => (invariant_of_reachable h).step_raised ht⟩

/-- The only worker executes the seed without sending a task. -/
def seedOnly : List (Event World.pair) :=
  [.processMessage (World.firstWorker _) (World.center _) ⟨[7], 3⟩,
    .leaveFunnel (World.firstWorker _), .centerAck (World.first _)]

theorem seedOnly_runs : ((machine .pair).run seedOnly (sendSeed ⟨[7], 3⟩)).isSome = true := by
  decide

theorem reachable_seedOnly : (machine .pair).Reachable
    (((machine .pair).run seedOnly (sendSeed ⟨[7], 3⟩)).get seedOnly_runs) := by
  have hstart : (machine .pair).Reachable (sendSeed ⟨[7], 3⟩) := .start ⟨_, rfl⟩
  exact hstart.run (Option.some_get _).symm

/-- Rank 1 feeds rank 2 and rank 2 rank 3; both owe their acknowledgement until the task that they
sent on is acknowledged. -/
def passedOn : List (Event World.four) :=
  let first := World.four.firstWorker
  [.processMessage first World.four.center ⟨[7], 3⟩, .poll first (some [secondOfFour]),
    .push first [8] 3, .send first, .leaveFunnel first,
    .processMessage secondOfFour first ⟨[8], 3⟩, .poll secondOfFour (some [thirdOfFour]),
    .push secondOfFour [9] 3, .send secondOfFour, .leaveFunnel secondOfFour,
    .processMessage thirdOfFour secondOfFour ⟨[9], 3⟩, .leaveFunnel thirdOfFour,
    .receiveAck secondOfFour thirdOfFour, .receiveAck first secondOfFour, .centerAck first]

theorem quiet_after_exit_passedOn : ∃ s : State .four,
    (machine .four).run passedOn (sendSeed ⟨[7], 3⟩) = some s ∧ s.centerPhase ≠ .receiving ∧
      s.Quiet ∧ ∀ e f, (machine .four).step e s = .raised f → f ∉ Fault.ofProtocol := by
  have hrun : ∃ s : State .four, (machine .four).run passedOn (sendSeed ⟨[7], 3⟩) = some s ∧
      s.centerPhase = .barrier := ⟨_, rfl, rfl⟩
  obtain ⟨s, hs, hphase⟩ := hrun
  have hstart : (machine .four).Reachable (sendSeed ⟨[7], 3⟩) := .start ⟨_, rfl⟩
  obtain ⟨hquiet, hfaults⟩ := quiet_after_exit (hstart.run hs)
  have hexit : s.centerPhase ≠ .receiving := by
    rw [hphase]
    decide
  exact ⟨s, hs, hexit, hquiet hexit, hfaults⟩

end Gempba.SemiCentralized
