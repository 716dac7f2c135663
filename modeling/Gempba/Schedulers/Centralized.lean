import Gempba.Schedulers.CentralizedUtils
import Gempba.Schedulers.ProtocolInvariant

/-!
# The centralized scheduler as a machine

Workers send new tasks to the center, which queues them and hands one to each
available worker. Every accepted task gets a ticket, so that two equal bundles
stay apart; tickets, and the logs of what was accepted and dispatched, are
bookkeeping of the model. A label that clears the buffer lists the queue in
the order in which it would be popped: any order of priorities is covered.
-/

namespace Gempba.Centralized

set_option autoImplicit false

variable {W : World}

structure Ticketed where
  ticket : ℕ
  bundle : TaskBundle
  deriving DecidableEq, Repr

structure State (W : World) extends SchedulerState W CenterOutbox where
  queue : Multiset Ticketed
  processState : WorkerRank W → ProcessState
  nodesAvailable : ℤ
  nodesRunning : ℤ
  accepted : List Ticketed
  dispatched : List (WorkerRank W × Ticketed)

abbrev Step (W : World) := Transition.Outcome Fault (State W)

/-- `send_seed`, after which the center enters its receive loop. -/
def sendSeed (seed : TaskBundle) : State W where
  toSchedulerState := .sendSeed .initial seed
  queue := 0
  processState := Function.update (fun _ => .AVAILABLE_STATE) W.firstWorker .RUNNING_STATE
  nodesAvailable := W.size - 1 - 1
  nodesRunning := 0
  accepted := []
  dispatched := []

/-- What the center's loop may receive. -/
inductive CenterMessage (W : World) where
  | state (w : WorkerRank W) (tag : StateTag)
  | scoreProposal
  | task (source : Rank W) (bundle : TaskBundle)
  | acknowledgement (source : Rank W)

inductive Event (W : World) where
  | processMessage (w : WorkerRank W) (source : Rank W) (bundle : TaskBundle)
  | consumeCenterFullness (w : WorkerRank W) (isFull : Bool)
  | push (w : WorkerRank W) (packet : TaskPacket) (functionId : ℤ)
  | send (w : WorkerRank W)
  | leaveFunnel (w : WorkerRank W)
  | receiveAck (w : WorkerRank W) (source : Rank W)
  | processTermination (w : WorkerRank W)
  | sendFinalSolution (w : WorkerRank W) (report : Report)
  | center (m : CenterMessage W) (order : List Ticketed)
  | clearBuffer (order : List Ticketed)
  | centerBarrier
  | receiveSolutionFrom (w : WorkerRank W) (tag : ProbedTag)

/-- A step of the shared protocol. -/
def State.lift (f : SchedulerState W CenterOutbox → SchedulerState.Step W CenterOutbox)
    (s : State W) : Step W :=
  (f s.toSchedulerState).map fun t => { s with toSchedulerState := t }

/-- `CENTER_IS_FULL` and `CENTER_IS_FREE`, in the main loop or in the poll section. -/
def consumeCenterFullness (w : WorkerRank W) (isFull : Bool) : State W → Step W :=
  State.lift (SchedulerState.updateOutbox [.receiving, .executing]
    (fun o => { o with isCenterFull := isFull }) w)

def push (w : WorkerRank W) (packet : TaskPacket) (functionId : ℤ) : State W → Step W :=
  State.lift (SchedulerState.push (·.tryOpenTransmissionChannel) (·.forcePush packet functionId) w)

/-- A task goes to the center. -/
def sendSection (o : CenterOutbox) :
    Option (Except Fault (Rank W × TaskBundle × CenterOutbox)) :=
  o.sendSection.map fun sent => sent.map fun rest => (W.center, rest)

def send (w : WorkerRank W) : State W → Step W := State.lift (SchedulerState.send sendSection w)

def processRunning (w : WorkerRank W) (s : State W) : State W :=
  { s with
    processState := Function.update s.processState w .RUNNING_STATE
    nodesRunning := s.nodesRunning + 1 }

def processAvailable (w : WorkerRank W) (s : State W) : State W :=
  { s with
    processState := Function.update s.processState w .AVAILABLE_STATE
    nodesAvailable := s.nodesAvailable + 1
    nodesRunning := s.nodesRunning - 1 }

def processTaskForCenter (source : Rank W) (bundle : TaskBundle) (s : State W) : Step W :=
  let m : TaskMessage W := ⟨source, W.center, bundle⟩
  let x : Ticketed := ⟨s.accepted.length, bundle⟩
  if s.centerPhase = .receiving ∧ m ∈ s.network.tasks then
    .moved { s with
      network := s.network.receiveTask m
      queue := x ::ₘ s.queue
      accepted := s.accepted ++ [x] }
  else .blocked

def popFront {τ : Type} : List τ → Option (τ × List τ)
  | [] => none
  | x :: xs => some (x, xs)

/-- The calls of `p_send`: `on_task_sent` and the two sends, for each rank served. -/
def sendToAvailable (sent : List (WorkerRank W × Ticketed)) (n : TaskNetwork W) : TaskNetwork W :=
  sent.foldl (fun n x => n.sendTask ⟨W.center, x.1, x.2.bundle⟩) n

def clearBuffer (order : List Ticketed) (s : State W) : Step W :=
  if s.centerPhase = .receiving ∧ s.queue = order then
    let d := dispatchToAvailable popFront W.workers order s.processState
    .moved { s with
      network := sendToAvailable d.sent s.network
      queue := d.queue
      processState := d.states
      nodesAvailable := s.nodesAvailable - d.sent.length
      dispatched := s.dispatched ++ d.sent }
  else .blocked

/-- The switch over the tag of one message. -/
def handle : CenterMessage W → State W → Step W
  | .state w tag, s =>
    (s.lift (SchedulerState.consumeIntFlag w tag)).map fun s =>
      match tag with
      | .RUNNING_STATE => processRunning w s
      | .AVAILABLE_STATE => processAvailable w s
  | .scoreProposal, s => if s.centerPhase = .receiving then .moved s else .blocked
  | .task source bundle, s => processTaskForCenter source bundle s
  | .acknowledgement source, s => s.lift (SchedulerState.centerAck source)

/-- The end of an iteration of the loop: the exit test, else `clear_buffer`. -/
def afterMessage (order : List Ticketed) (s : State W) : Step W :=
  if s.deficit = 0 ∧ s.queue = 0 then
    .moved { s with toSchedulerState := s.toSchedulerState.notifyTermination }
  else clearBuffer order s

def step : Event W → State W → Step W
  | .processMessage w source bundle => State.lift (SchedulerState.processMessage w source bundle)
  | .consumeCenterFullness w isFull => consumeCenterFullness w isFull
  | .push w packet functionId => push w packet functionId
  | .send w => send w
  | .leaveFunnel w => State.lift (SchedulerState.leaveFunnel w)
  | .receiveAck w source => State.lift (SchedulerState.receiveAck w source)
  | .processTermination w => State.lift (SchedulerState.processTermination w)
  | .sendFinalSolution w report => State.lift (SchedulerState.sendFinalSolution w report)
  | .center m order => fun s => (handle m s).bind (afterMessage order)
  | .clearBuffer order => clearBuffer order
  | .centerBarrier => State.lift SchedulerState.centerBarrier
  | .receiveSolutionFrom w tag => State.lift (SchedulerState.receiveSolutionFrom w tag)

def machine (W : World) : Transition.Machine (State W) (Event W) Fault where
  initial s := ∃ seed, s = sendSeed seed
  step := step

variable {s t : State W}

/-- Accepted tasks are either queued or dispatched, and told apart by their tickets. -/
structure Conserved (s : State W) : Prop where
  accounted : (s.dispatched.map Prod.snd : Multiset Ticketed) + s.queue = s.accepted
  tickets : s.accepted.map Ticketed.ticket = List.range s.accepted.length

structure Invariant (s : State W) : Prop where
  sound : s.toSchedulerState.Sound
  conserved : Conserved s
  waiting : s.centerPhase = .receiving → ¬ (s.deficit = 0 ∧ s.queue = 0)
  emptied : s.centerPhase ≠ .receiving → s.queue = 0

theorem invariant_sendSeed (seed : TaskBundle) : Invariant (sendSeed seed : State W) where
  sound := SchedulerState.sound_sendSeed rfl seed
  conserved := ⟨rfl, rfl⟩
  waiting _ := by simp [sendSeed]
  emptied _ := rfl

theorem lift_moved {f : SchedulerState W CenterOutbox → SchedulerState.Step W CenterOutbox}
    (h : s.lift f = .moved t) :
    ∃ u, f s.toSchedulerState = .moved u ∧ t = { s with toSchedulerState := u } := by
  obtain ⟨u, hu, rfl⟩ := Transition.Outcome.map_eq_moved.mp h
  exact ⟨u, hu, rfl⟩

theorem lift_raised {f : SchedulerState W CenterOutbox → SchedulerState.Step W CenterOutbox}
    {e : Fault} (h : s.lift f = .raised e) : f s.toSchedulerState = .raised e :=
  Transition.Outcome.map_eq_raised.mp h

theorem processTaskForCenter_moved {source : Rank W} {bundle : TaskBundle}
    (h : processTaskForCenter source bundle s = .moved t) :
    s.centerPhase = .receiving ∧ ⟨source, W.center, bundle⟩ ∈ s.network.tasks ∧
      t = { s with
        network := s.network.receiveTask ⟨source, W.center, bundle⟩
        queue := ⟨s.accepted.length, bundle⟩ ::ₘ s.queue
        accepted := s.accepted ++ [⟨s.accepted.length, bundle⟩] } := by
  simp only [processTaskForCenter] at h
  split at h
  · rename_i hguard
    cases h
    exact ⟨hguard.1, hguard.2, rfl⟩
  · cases h

theorem clearBuffer_moved {order : List Ticketed} (h : clearBuffer order s = .moved t) :
    s.centerPhase = .receiving ∧ s.queue = order ∧
      t = { s with
        network := sendToAvailable
          (dispatchToAvailable popFront W.workers order s.processState).sent s.network
        queue := (dispatchToAvailable popFront W.workers order s.processState).queue
        processState := (dispatchToAvailable popFront W.workers order s.processState).states
        nodesAvailable := s.nodesAvailable -
          (dispatchToAvailable popFront W.workers order s.processState).sent.length
        dispatched := s.dispatched ++
          (dispatchToAvailable popFront W.workers order s.processState).sent } := by
  simp only [clearBuffer] at h
  split at h
  · rename_i hguard
    cases h
    exact ⟨hguard.1, hguard.2, rfl⟩
  · cases h

theorem popFront_contents {τ : Type} (q : List τ) (x : τ) (q' : List τ)
    (h : popFront q = some (x, q')) : (q : Multiset τ) = x ::ₘ (q' : Multiset τ) := by
  cases q with
  | nil => cases h
  | cons y ys =>
    cases h
    rfl

theorem sendToAvailable_deficit (sent : List (WorkerRank W × Ticketed)) (n : TaskNetwork W) :
    ((sendToAvailable sent n).detector W.center).deficit =
      (n.detector W.center).deficit + sent.length := by
  induction sent generalizing n with
  | nil => rfl
  | cons x sent ih =>
    rw [sendToAvailable, List.foldl_cons, ← sendToAvailable, ih]
    simp [TaskNetwork.sendTask, TerminationDetector.onTaskSent]
    omega

theorem sendToAvailable_sound {A : Rank W → Prop} {n : TaskNetwork W} (h : n.Sound A)
    (hp : n.Prompt A) (sent : List (WorkerRank W × Ticketed)) :
    (sendToAvailable sent n).Sound A ∧ (sendToAvailable sent n).Prompt A := by
  induction sent generalizing n with
  | nil => exact ⟨h, hp⟩
  | cons x sent ih => exact ih (h.sendTask _ (Or.inl rfl)) (hp.sendTask _)

namespace Invariant

theorem ofWorker (h : Invariant s) {u : SchedulerState W CenterOutbox} (hu : u.Sound)
    (hcenter : SchedulerState.SameCenter s.toSchedulerState u) :
    Invariant { s with toSchedulerState := u } where
  sound := hu
  conserved := ⟨h.conserved.accounted, h.conserved.tickets⟩
  waiting hphase := by
    have hwaiting := h.waiting (hcenter.centerPhase ▸ hphase)
    rwa [← hcenter.deficit] at hwaiting
  emptied hphase := h.emptied (hcenter.centerPhase ▸ hphase)

theorem ofExited (h : Invariant s) {u : SchedulerState W CenterOutbox} (hu : u.Sound)
    (hs : s.centerPhase ≠ .receiving) (hphase : u.centerPhase ≠ .receiving) :
    Invariant { s with toSchedulerState := u } where
  sound := hu
  conserved := ⟨h.conserved.accounted, h.conserved.tickets⟩
  waiting hreceiving := absurd hreceiving hphase
  emptied _ := h.emptied hs

end Invariant

/-- Between the receipt of a message and the exit test. -/
structure Handled (s : State W) : Prop where
  sound : s.toSchedulerState.Sound
  conserved : Conserved s
  receiving : s.centerPhase = .receiving

theorem handled_task (h : Invariant s) {source : Rank W} {bundle : TaskBundle}
    (ht : processTaskForCenter source bundle s = .moved t) : Handled t := by
  obtain ⟨hphase, hmem, rfl⟩ := processTaskForCenter_moved ht
  have hroot : (s.network.detector W.center).isRoot = true :=
    (h.sound.network.root W.center).mpr rfl
  refine ⟨?_, ⟨?_, ?_⟩, hphase⟩
  · refine h.sound.withNetwork (h.sound.network.receiveTask hmem fun _ hr => Or.inl hr) ?_
      fun hne => absurd hphase hne
    exact h.sound.prompt.receiveTask (fun _ _ hr => hr)
      (Or.inr ⟨hroot, h.sound.network.balanced.root_free⟩)
  · rw [Multiset.add_cons, h.conserved.accounted, ← Multiset.coe_add, Multiset.add_comm,
      ← Multiset.singleton_add]
    rfl
  · rw [List.map_append, h.conserved.tickets, List.length_append, List.length_singleton,
      List.range_succ]
    rfl

theorem handled (h : Invariant s) {m : CenterMessage W} (ht : handle m s = .moved t) :
    Handled t := by
  cases m with
  | state w tag =>
    obtain ⟨u, hu, rfl⟩ := Transition.Outcome.map_eq_moved.mp ht
    obtain ⟨v, hv, rfl⟩ := lift_moved hu
    have hsound := h.sound.consumeIntFlag hv
    obtain ⟨hphase, _, rfl⟩ := SchedulerState.consumeIntFlag_moved hv
    cases tag <;> exact ⟨hsound, ⟨h.conserved.accounted, h.conserved.tickets⟩, hphase⟩
  | scoreProposal =>
    simp only [handle] at ht
    split at ht
    · rename_i hphase
      cases ht
      exact ⟨h.sound, h.conserved, hphase⟩
    · cases ht
  | task source bundle => exact handled_task h ht
  | acknowledgement source =>
    obtain ⟨u, hu, rfl⟩ := lift_moved ht
    have hsound := h.sound.centerAck hu
    obtain ⟨hphase, _, _, _, rfl⟩ := SchedulerState.centerAck_moved hu
    exact ⟨hsound, ⟨h.conserved.accounted, h.conserved.tickets⟩, hphase⟩

namespace Handled

/-- Dispatching keeps the center waiting: a task sent is an acknowledgement owed to it. -/
theorem clearBuffer (h : Handled s) (hwaiting : ¬ (s.deficit = 0 ∧ s.queue = 0))
    {order : List Ticketed} (ht : clearBuffer order s = .moved t) : Invariant t := by
  obtain ⟨hphase, horder, rfl⟩ := clearBuffer_moved ht
  have hcontents := dispatchToAvailable_contents popFront (fun q => (q : Multiset Ticketed))
    popFront_contents W.workers order s.processState
  have hnet := sendToAvailable_sound h.sound.network h.sound.prompt
    (dispatchToAvailable popFront W.workers order s.processState).sent
  refine ⟨?_, ⟨?_, h.conserved.tickets⟩, fun _ hidle => ?_, fun hne => absurd hphase hne⟩
  · exact h.sound.withNetwork hnet.1 hnet.2 fun hne => absurd hphase hne
  · rw [← h.conserved.accounted, horder, ← hcontents, List.map_append, ← Multiset.coe_add,
      Multiset.add_assoc]
  · obtain ⟨hdeficit, hqueue⟩ := hidle
    simp only [SchedulerState.deficit, sendToAvailable_deficit] at hdeficit
    have hsent : (dispatchToAvailable popFront W.workers order s.processState).sent = [] :=
      List.length_eq_zero_iff.mp (by omega)
    have hrest : ((dispatchToAvailable popFront W.workers order s.processState).queue :
        Multiset Ticketed) = 0 := hqueue
    refine hwaiting ⟨by simp only [SchedulerState.deficit]; omega, ?_⟩
    rw [horder, ← hcontents, hsent, hrest]
    rfl

theorem afterMessage (h : Handled s) {order : List Ticketed}
    (ht : afterMessage order s = .moved t) : Invariant t := by
  simp only [Centralized.afterMessage] at ht
  split at ht
  · rename_i hidle
    cases ht
    exact ⟨h.sound.notifyTermination hidle.1, ⟨h.conserved.accounted, h.conserved.tickets⟩,
      fun hphase => by simp [SchedulerState.notifyTermination] at hphase, fun _ => hidle.2⟩
  · rename_i hwaiting
    exact h.clearBuffer hwaiting ht

end Handled

theorem forcePush_consistent {packet : TaskPacket} {functionId : ℤ} (o o' : CenterOutbox)
    (h : o.forcePush packet functionId = .ok o') : (Outbox.outgoing o').Consistent := by
  obtain ⟨_, rfl⟩ := CenterOutbox.forcePush_eq_ok h
  rfl

theorem sendSection_initial (o : CenterOutbox) (r : Rank W) (bundle : TaskBundle)
    (o' : CenterOutbox) (h : sendSection o = some (.ok (r, bundle, o'))) :
    Outbox.outgoing o' = .initial := by
  unfold sendSection at h
  cases hsend : o.sendSection with
  | none => simp [hsend] at h
  | some sent =>
    cases sent with
    | error e => simp [hsend, Except.map] at h
    | ok sent =>
      obtain ⟨b, rest⟩ := sent
      simp only [hsend, Option.map_some, Except.map, Option.some.injEq, Except.ok.injEq,
        Prod.mk.injEq] at h
      obtain ⟨_, _, rfl⟩ := h
      obtain ⟨_, rfl⟩ := CenterOutbox.sendSection_eq_ok hsend
      rfl

theorem Invariant.step (h : Invariant s) (e : Event W) (ht : step e s = .moved t) :
    Invariant t := by
  cases e with
  | processMessage w source bundle =>
    obtain ⟨u, hu, rfl⟩ := lift_moved ht
    exact h.ofWorker (h.sound.processMessage hu) (SchedulerState.processMessage_center hu)
  | consumeCenterFullness w isFull =>
    obtain ⟨u, hu, rfl⟩ := lift_moved ht
    exact h.ofWorker
      (h.sound.updateOutbox (f := fun o => { o with isCenterFull := isFull }) (fun _ => rfl) hu)
      (SchedulerState.updateOutbox_center hu)
  | push w packet functionId =>
    obtain ⟨u, hu, rfl⟩ := lift_moved ht
    exact h.ofWorker (h.sound.push forcePush_consistent hu) (SchedulerState.push_center hu)
  | send w =>
    obtain ⟨u, hu, rfl⟩ := lift_moved ht
    exact h.ofWorker (h.sound.send sendSection_initial hu) (SchedulerState.send_center hu)
  | leaveFunnel w =>
    obtain ⟨u, hu, rfl⟩ := lift_moved ht
    exact h.ofWorker (h.sound.leaveFunnel hu) (SchedulerState.leaveFunnel_center hu)
  | receiveAck w source =>
    obtain ⟨u, hu, rfl⟩ := lift_moved ht
    exact h.ofWorker (h.sound.receiveAck hu) (SchedulerState.receiveAck_center hu)
  | processTermination w =>
    obtain ⟨u, hu, rfl⟩ := lift_moved ht
    exact h.ofWorker (h.sound.processTermination hu) (SchedulerState.processTermination_center hu)
  | sendFinalSolution w report =>
    obtain ⟨u, hu, rfl⟩ := lift_moved ht
    exact h.ofWorker (h.sound.sendFinalSolution hu) (SchedulerState.sendFinalSolution_center hu)
  | center m order =>
    obtain ⟨u, hu, hafter⟩ := Transition.Outcome.bind_eq_moved.mp ht
    exact (handled h hu).afterMessage hafter
  | clearBuffer order =>
    have hphase := (clearBuffer_moved ht).1
    exact Handled.clearBuffer ⟨h.sound, h.conserved, hphase⟩ (h.waiting hphase) ht
  | centerBarrier =>
    obtain ⟨u, hu, rfl⟩ := lift_moved ht
    have hsound := h.sound.centerBarrier hu
    obtain ⟨hphase, _, rfl⟩ := SchedulerState.centerBarrier_moved hu
    exact h.ofExited hsound (by simp [hphase]) (by simp)
  | receiveSolutionFrom w tag =>
    obtain ⟨u, hu, rfl⟩ := lift_moved ht
    have hsound := h.sound.receiveSolutionFrom hu
    obtain ⟨hphase, ⟨_, _, _, rfl⟩ | ⟨_, _, _, rfl⟩⟩ :=
      SchedulerState.receiveSolutionFrom_moved hu
    · exact h.ofExited hsound (by simp [hphase]) (by simp [hphase])
    · exact h.ofExited hsound (by simp [hphase]) (nextPhase_ne_receiving w)

theorem invariant_of_reachable (h : (machine W).Reachable s) : Invariant s :=
  h.invariant (fun _ ⟨seed, hs⟩ => hs ▸ invariant_sendSeed seed)
    (fun _ e _ _ hs _ ht => hs.step e ht)

/-- The log holds one dispatch of the task. -/
def DispatchedOnce (s : State W) (x : Ticketed) : Prop :=
  ∃ w, s.dispatched.filter (fun d => d.2 = x) = [(w, x)]

theorem Conserved.nodup (h : Conserved s) : s.accepted.Nodup :=
  List.Nodup.of_map _ (h.tickets ▸ List.nodup_range)

theorem Conserved.dispatchedOnce (h : Conserved s) (hqueue : s.queue = 0) {x : Ticketed}
    (hx : x ∈ s.accepted) : DispatchedOnce s x := by
  have hperm : (s.dispatched.map Prod.snd).Perm s.accepted := by
    have haccounted := h.accounted
    rw [hqueue, Multiset.add_zero] at haccounted
    exact Multiset.coe_eq_coe.mp haccounted
  have hcount : (s.dispatched.filter (fun d => d.2 = x)).length = 1 := by
    rw [← List.countP_eq_length_filter]
    calc s.dispatched.countP (fun d => d.2 = x)
        = (s.dispatched.map Prod.snd).countP (fun y => y = x) := by
          rw [List.countP_map]
          rfl
      _ = s.accepted.countP (fun y => y = x) := hperm.countP_eq _
      _ = 1 := by
          have hone := List.count_eq_one_of_mem h.nodup hx
          rwa [List.count, show (fun y => y == x) = fun y => decide (y = x) from
            funext fun y => beq_eq_decide y x] at hone
  obtain ⟨d, hd⟩ := List.length_eq_one_iff.mp hcount
  have hmem : d ∈ s.dispatched.filter (fun d => d.2 = x) := by simp [hd]
  have hdx : d.2 = x := by simpa using (List.mem_filter.mp hmem).2
  exact ⟨d.1, by rw [hd, ← hdx]⟩

/-- At the exit nothing is left, and what the center accepted was dispatched once. -/
theorem conserved_after_exit (h : (machine W).Reachable s) (hexit : s.centerPhase ≠ .receiving) :
    s.Quiet ∧ s.queue = 0 ∧ s.accepted.Nodup ∧ (∀ x ∈ s.accepted, DispatchedOnce s x) ∧
      ∀ d ∈ s.dispatched, d.2 ∈ s.accepted := by
  have hinv := invariant_of_reachable h
  have hqueue := hinv.emptied hexit
  refine ⟨hinv.sound.quiet hexit, hqueue, hinv.conserved.nodup,
    fun x hx => hinv.conserved.dispatchedOnce hqueue hx, fun d hd => ?_⟩
  have hmem : d.2 ∈ (s.dispatched.map Prod.snd : Multiset Ticketed) + s.queue := by
    rw [hqueue, Multiset.add_zero]
    exact List.mem_map_of_mem hd
  rwa [hinv.conserved.accounted] at hmem

/-- The only worker sends one task to the center and gets it back. -/
def oneTask : List (Event World.pair) :=
  let w := World.firstWorker World.pair
  let c := World.center World.pair
  let x : Ticketed := ⟨0, ⟨[5], 1⟩⟩
  [.processMessage w c ⟨[7], 3⟩, .push w [5] 1, .send w, .leaveFunnel w,
    .center (.task w x.bundle) [x], .receiveAck w c, .center (.state w .RUNNING_STATE) [x],
    .center (.state w .AVAILABLE_STATE) [x], .processMessage w c x.bundle, .leaveFunnel w,
    .center (.acknowledgement w) [], .center (.acknowledgement w) []]

theorem oneTask_runs : ((machine .pair).run oneTask (sendSeed ⟨[7], 3⟩)).isSome = true := by
  decide

theorem reachable_oneTask : (machine .pair).Reachable
    (((machine .pair).run oneTask (sendSeed ⟨[7], 3⟩)).get oneTask_runs) := by
  have hstart : (machine .pair).Reachable (sendSeed ⟨[7], 3⟩) := .start ⟨_, rfl⟩
  exact hstart.run (Option.some_get _).symm

theorem conserved_after_exit_oneTask : DispatchedOnce
    (((machine .pair).run oneTask (sendSeed ⟨[7], 3⟩)).get oneTask_runs) ⟨0, ⟨[5], 1⟩⟩ :=
  (conserved_after_exit reachable_oneTask (by decide)).2.2.2.1 _ (by decide)

end Gempba.Centralized
