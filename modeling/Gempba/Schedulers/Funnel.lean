import Gempba.Schedulers.NextProcess

/-!
# The funnel of a worker

The funnel thread, the threads of the pool and the mutex between them. The
funnel pops the queue and asks `is_done` without the mutex, so that a push
may fall between any two of its steps. `m_transmitting` is only read and
written under the mutex, which makes `force_push` one step. The logs of the
accepted and of the sent bundles are bookkeeping of the model.
-/

namespace Gempba.Funnel

set_option autoImplicit false

/-- What a scheduler contributes to its worker's funnel; `π` is what a poll section may find. -/
structure Channel (Ω π : Type) [Outbox Ω] where
  setOutgoing : Outgoing → Ω → Ω
  tryOpenTransmissionChannel : Ω → Bool
  forcePush : TaskPacket → ℤ → Ω → Except Fault Ω
  sendTask : TaskBundle → Ω → Except Fault Ω
  pollSection : π → Ω → Ω
  outgoing_setOutgoing : ∀ o x, Outbox.outgoing (setOutgoing o x) = o
  not_transmitting : ∀ x, tryOpenTransmissionChannel x = true →
    (Outbox.outgoing x).transmitting = false
  forcePush_eq_ok : ∀ packet functionId x y, forcePush packet functionId x = .ok y →
    (Outbox.outgoing x).tasksBundleQueue = [] ∧
      Outbox.outgoing y = ⟨true, [⟨packet, functionId⟩]⟩
  forcePush_eq_error : ∀ packet functionId x e, forcePush packet functionId x = .error e →
    e = .emptyBuffer ∨ e = .emptyVector ∨
      (Outbox.outgoing x).tasksBundleQueue ≠ [] ∧ e = .queueNotEmpty
  sendTask_eq_ok : ∀ b x y, sendTask b x = .ok y → Outbox.outgoing y = Outbox.outgoing x
  sendTask_eq_error : ∀ b x e, sendTask b x = .error e →
    e = .messageTooLong ∨ e = .sendToItself ∨ e = .noDestination
  outgoing_pollSection : ∀ message x,
    Outbox.outgoing (pollSection message x) = Outbox.outgoing x

/-- The place in `task_funneling`. `outside` is the receive loop, `popped` the head of the
inner loop with what the last pop gave. -/
inductive Pc where
  | outside
  | entered
  | popped (bundle : Option TaskBundle)
  | sending (bundle : TaskBundle)
  | sent
  | polling
  | polled
  | asking
  | confirming
  | leaving
  deriving DecidableEq

namespace Pc

/-- The bundle that the funnel has popped and not sent. -/
def hand : Pc → List TaskBundle
  | .popped (some b) => [b]
  | .sending b => [b]
  | _ => []

/-- How many bundles keep `m_transmitting` set without being queued. -/
def load : Pc → ℕ
  | .popped (some _) | .sending _ | .sent => 1
  | _ => 0

/-- The places inside a section protected by the mutex. -/
def locked : Pc → Bool
  | .sending _ | .sent | .polling => true
  | _ => false

/-- The places passed only after `is_done`. -/
def done : Pc → Bool
  | .outside | .confirming | .leaving => true
  | _ => false

def drained : Pc → Bool
  | .outside | .leaving => true
  | _ => false

end Pc

/-- `opened` holds the guard and has not pushed, `pushed` holds it after its push. -/
inductive ThreadPhase where
  | idle | running | opened | pushed
  deriving DecidableEq

def ThreadPhase.locked : ThreadPhase → Bool
  | .opened | .pushed => true
  | _ => false

inductive Owner (k : ℕ) where
  | funnel
  | thread (i : Fin k)
  deriving DecidableEq

structure State (Ω : Type) (k : ℕ) where
  worker : Ω
  queuedTasks : ℕ
  threads : Fin k → ThreadPhase
  mutex : Option (Owner k)
  pc : Pc
  accepted : List TaskBundle
  sent : List TaskBundle

/-- `receive` is a message handled in the receive loop; the message of `funnel` is the one
that its poll section may find. -/
inductive Event (π : Type) (k : ℕ) where
  | processMessage (tasks : ℕ)
  | receive (message : π)
  | start (i : Fin k)
  | submit (i : Fin k)
  | finish (i : Fin k)
  | tryOpen (i : Fin k)
  | push (i : Fin k) (packet : TaskPacket) (functionId : ℤ)
  | close (i : Fin k)
  | funnel (message : π)

abbrev Step (Ω : Type) (k : ℕ) := Transition.Outcome Fault (State Ω k)

section

variable {Ω π : Type} [Outbox Ω] {k : ℕ}

def isDone (s : State Ω k) : Bool := s.queuedTasks = 0 ∧ ∀ i, s.threads i = .idle

def State.queue (s : State Ω k) : List TaskBundle := (Outbox.outgoing s.worker).tasksBundleQueue

def State.transmitting (s : State Ω k) : Bool := (Outbox.outgoing s.worker).transmitting

namespace Channel

variable (C : Channel Ω π)

def processMessage (tasks : ℕ) (s : State Ω k) : Step Ω k :=
  if s.pc = .outside then .moved { s with queuedTasks := s.queuedTasks + tasks, pc := .entered }
  else .blocked

def receive (message : π) (s : State Ω k) : Step Ω k :=
  if s.pc = .outside then .moved { s with worker := C.pollSection message s.worker } else .blocked

def start (i : Fin k) (s : State Ω k) : Step Ω k :=
  if s.threads i = .idle ∧ s.queuedTasks ≠ 0 then
    .moved { s with
      queuedTasks := s.queuedTasks - 1
      threads := Function.update s.threads i .running }
  else .blocked

def submit (i : Fin k) (s : State Ω k) : Step Ω k :=
  if s.threads i = .running then .moved { s with queuedTasks := s.queuedTasks + 1 } else .blocked

def finish (i : Fin k) (s : State Ω k) : Step Ω k :=
  if s.threads i = .running then .moved { s with threads := Function.update s.threads i .idle }
  else .blocked

/-- A failed attempt leaves everything as it is. -/
def tryOpen (i : Fin k) (s : State Ω k) : Step Ω k :=
  if s.threads i = .running then
    if s.mutex = none ∧ C.tryOpenTransmissionChannel s.worker = true then
      .moved { s with
        threads := Function.update s.threads i .opened
        mutex := some (.thread i) }
    else .moved s
  else .blocked

def push (i : Fin k) (packet : TaskPacket) (functionId : ℤ) (s : State Ω k) : Step Ω k :=
  if s.threads i = .opened then
    match C.forcePush packet functionId s.worker with
    | .ok worker =>
      .moved { s with
        worker
        threads := Function.update s.threads i .pushed
        accepted := s.accepted ++ [⟨packet, functionId⟩] }
    | .error e => .raised e
  else .blocked

/-- The guard goes out of scope, with or without a push. -/
def close (i : Fin k) (s : State Ω k) : Step Ω k :=
  if (s.threads i).locked then
    .moved { s with threads := Function.update s.threads i .running, mutex := none }
  else .blocked

/-- `pop` of the queue: the caller says where the funnel goes on with the result. -/
def pop (next : Option TaskBundle → Pc) (s : State Ω k) : State Ω k :=
  match s.queue with
  | [] => { s with pc := next none }
  | b :: rest =>
    { s with
      worker := C.setOutgoing { Outbox.outgoing s.worker with tasksBundleQueue := rest } s.worker
      pc := next (some b) }

def lock (next : Pc) (s : State Ω k) : Step Ω k :=
  if s.mutex = none then .moved { s with mutex := some .funnel, pc := next } else .blocked

def send (b : TaskBundle) (s : State Ω k) : Step Ω k :=
  match C.sendTask b s.worker with
  | .ok worker => .moved { s with worker, pc := .sent, sent := s.sent ++ [b] }
  | .error e => .raised e

/-- The pop at the end of the send section, and the release of the mutex. -/
def endTransmission (s : State Ω k) : Step Ω k :=
  match s.queue with
  | [] =>
    .moved { s with
      worker := C.setOutgoing { Outbox.outgoing s.worker with transmitting := false } s.worker
      mutex := none
      pc := .popped none }
  | _ :: _ => .raised .taskFoundInQueue

def poll (message : π) (s : State Ω k) : State Ω k :=
  { s with worker := C.pollSection message s.worker, mutex := none, pc := .polled }

def leave (s : State Ω k) : Step Ω k :=
  if s.queue.isEmpty then .moved { s with pc := .outside } else .raised .leavingWithPendingMessage

/-- Where a pop outside the sections leads: to the send section, or on to `next`. -/
def orElse (next : Pc) : Option TaskBundle → Pc
  | some b => .popped (some b)
  | none => next

/-- The next step of the funnel thread. -/
def funnel (message : π) (s : State Ω k) : Step Ω k :=
  match s.pc with
  | .outside => .blocked
  | .entered => .moved (C.pop .popped s)
  | .popped (some b) => lock (.sending b) s
  | .sending b => C.send b s
  | .sent => C.endTransmission s
  | .popped none => lock .polling s
  | .polling => .moved (C.poll message s)
  | .polled => .moved (C.pop (orElse .asking) s)
  | .asking => .moved { s with pc := if isDone s then .confirming else .popped none }
  | .confirming => .moved (C.pop (orElse .leaving) s)
  | .leaving => leave s

def step : Event π k → State Ω k → Step Ω k
  | .processMessage tasks => processMessage tasks
  | .receive message => C.receive message
  | .start i => start i
  | .submit i => submit i
  | .finish i => finish i
  | .tryOpen i => C.tryOpen i
  | .push i packet functionId => C.push i packet functionId
  | .close i => close i
  | .funnel message => C.funnel message

end Channel

def initialState (worker : Ω) : State Ω k := ⟨worker, 0, fun _ => .idle, none, .outside, [], []⟩

/-- A worker with `k` pool threads, over any number of received tasks. -/
def Channel.machine (C : Channel Ω π) (k : ℕ) (worker : Ω) :
    Transition.Machine (State Ω k) (Event π k) Fault where
  initial s := s = initialState worker
  step := C.step

end

section

variable {Ω π : Type} [Outbox Ω] {k : ℕ}

structure Invariant (s : State Ω k) : Prop where
  thread : ∀ i, (s.threads i).locked = true ↔ s.mutex = some (.thread i)
  funnel : s.pc.locked = true ↔ s.mutex = some .funnel
  opened : ∀ i, s.threads i = .opened → s.transmitting = false
  load : s.queue.length + s.pc.load = s.transmitting.toNat
  log : s.accepted = s.sent ++ s.pc.hand ++ s.queue
  done : s.pc.done = true → isDone s = true
  drained : s.pc.drained = true → s.queue = []

theorem invariant_initial (worker : Ω) (h : Outbox.outgoing worker = .initial) :
    Invariant (initialState (k := k) worker) where
  thread _ := by simp [initialState, ThreadPhase.locked]
  funnel := by simp [initialState, Pc.locked]
  opened _ hopen := by cases hopen
  load := by simp [initialState, State.queue, State.transmitting, h, Outgoing.initial, Pc.load]
  log := by simp [initialState, State.queue, h, Outgoing.initial, Pc.hand]
  done _ := by simp [initialState, isDone]
  drained _ := by simp [initialState, State.queue, h, Outgoing.initial]

namespace Invariant

variable {s t : State Ω k}

theorem busy (h : Invariant s) {i : Fin k} (hi : s.threads i ≠ .idle) : s.pc.done = false := by
  by_contra hdone
  have hidle := h.done (by simpa using hdone)
  simp only [isDone, decide_eq_true_eq] at hidle
  exact hi (hidle.2 i)

theorem Pc.done_of_drained {pc : Pc} (h : pc.done = false) : pc.drained = false := by
  cases pc <;> simp_all [Pc.done, Pc.drained]

/-- The pool goes on while the funnel is at a place that does not need it to be done. -/
theorem pool (h : Invariant s) (hdone : s.pc.done = false) (threads : Fin k → ThreadPhase)
    (queuedTasks : ℕ) (mutex : Option (Owner k))
    (hthread : ∀ i, (threads i).locked = true ↔ mutex = some (.thread i))
    (hfunnel : mutex = some .funnel ↔ s.mutex = some .funnel)
    (hopened : ∀ i, threads i = .opened → s.transmitting = false) :
    Invariant { s with threads, queuedTasks, mutex } where
  thread := hthread
  funnel := h.funnel.trans hfunnel.symm
  opened := hopened
  load := h.load
  log := h.log
  done hd := absurd hd (by simp [hdone])
  drained := h.drained

theorem thread_update (h : Invariant s) {i : Fin k} {phase : ThreadPhase}
    (hphase : phase.locked = (s.threads i).locked) (j : Fin k) :
    (Function.update s.threads i phase j).locked = true ↔ s.mutex = some (.thread j) := by
  by_cases hj : j = i
  · subst hj
    rw [Function.update_self, hphase]
    exact h.thread j
  · rw [Function.update_of_ne hj]
    exact h.thread j

theorem opened_update (h : Invariant s) {i : Fin k} {phase : ThreadPhase}
    (hphase : phase ≠ .opened) (j : Fin k)
    (hj : Function.update s.threads i phase j = .opened) : s.transmitting = false := by
  by_cases hji : j = i
  · subst hji
    rw [Function.update_self] at hj
    exact absurd hj hphase
  · rw [Function.update_of_ne hji] at hj
    exact h.opened j hj

theorem goTo (h : Invariant s) (pc : Pc) (mutex : Option (Owner k))
    (hthread : ∀ i, s.mutex = some (.thread i) ↔ mutex = some (.thread i))
    (hfunnel : pc.locked = true ↔ mutex = some .funnel) (hload : pc.load = s.pc.load)
    (hhand : pc.hand = s.pc.hand) (hdone : pc.done = true → isDone s = true)
    (hdrained : pc.drained = true → s.queue = []) : Invariant { s with pc, mutex } where
  thread i := (h.thread i).trans (hthread i)
  funnel := hfunnel
  opened := h.opened
  load := hload ▸ h.load
  log := hhand ▸ h.log
  done := hdone
  drained := hdrained

theorem of_processMessage (h : Invariant s) {tasks : ℕ}
    (ht : Channel.processMessage tasks s = .moved t) : Invariant t := by
  simp only [Channel.processMessage] at ht
  split at ht
  · rename_i hpc
    have hentered :=
      h.goTo .entered s.mutex (fun _ => Iff.rfl) (by simpa [hpc, Pc.locked] using h.funnel)
      (by simp [hpc, Pc.load]) (by simp [hpc, Pc.hand]) (fun hd => by cases hd)
      (fun hd => by cases hd)
    cases ht
    exact hentered.pool rfl s.threads _ s.mutex h.thread Iff.rfl h.opened
  · cases ht

/-- Only the part of the worker that is not its outgoing side changes. -/
theorem of_outgoing_eq (h : Invariant s) {worker : Ω}
    (hworker : Outbox.outgoing worker = Outbox.outgoing s.worker) :
    Invariant { s with worker } where
  thread := h.thread
  funnel := h.funnel
  opened i hi := (congrArg Outgoing.transmitting hworker).trans (h.opened i hi)
  load := by simpa [State.queue, State.transmitting, hworker] using h.load
  log := by simpa [State.queue, hworker] using h.log
  done := h.done
  drained := by simpa [State.queue, hworker] using h.drained

theorem of_receive (h : Invariant s) {C : Channel Ω π} {message : π}
    (ht : C.receive message s = .moved t) : Invariant t := by
  simp only [Channel.receive] at ht
  split at ht
  · cases ht
    exact h.of_outgoing_eq (C.outgoing_pollSection message s.worker)
  · cases ht

theorem of_start (h : Invariant s) {i : Fin k} (ht : Channel.start i s = .moved t) :
    Invariant t := by
  simp only [Channel.start] at ht
  split at ht
  · rename_i hi
    have hdone : s.pc.done = false := by
      by_contra hdone
      have hidle := h.done (by simpa using hdone)
      simp only [isDone, decide_eq_true_eq] at hidle
      exact hi.2 hidle.1
    cases ht
    exact h.pool hdone _ _ _ (h.thread_update (by simp [hi.1, ThreadPhase.locked])) Iff.rfl
      (h.opened_update (by simp))
  · cases ht

theorem of_submit (h : Invariant s) {i : Fin k} (ht : Channel.submit i s = .moved t) :
    Invariant t := by
  simp only [Channel.submit] at ht
  split at ht
  · rename_i hi
    cases ht
    exact h.pool (h.busy (i := i) (by simp [hi])) _ _ _ h.thread Iff.rfl h.opened
  · cases ht

theorem of_finish (h : Invariant s) {i : Fin k} (ht : Channel.finish i s = .moved t) :
    Invariant t := by
  simp only [Channel.finish] at ht
  split at ht
  · rename_i hi
    cases ht
    exact h.pool (h.busy (i := i) (by simp [hi])) _ _ _
      (h.thread_update (by simp [hi, ThreadPhase.locked])) Iff.rfl (h.opened_update (by simp))
  · cases ht

theorem of_tryOpen (h : Invariant s) {C : Channel Ω π} {i : Fin k}
    (ht : C.tryOpen i s = .moved t) : Invariant t := by
  simp only [Channel.tryOpen] at ht
  split at ht
  · rename_i hi
    split at ht
    · rename_i hopen
      cases ht
      refine h.pool (h.busy (i := i) (by simp [hi])) _ _ _ (fun j => ?_) (by simp [hopen.1])
        (fun j _ => C.not_transmitting _ hopen.2)
      by_cases hj : j = i
      · subst hj
        simp [ThreadPhase.locked]
      · simp only [Function.update_of_ne hj, Option.some.injEq, Owner.thread.injEq,
          Ne.symm hj, iff_false]
        intro hlocked
        rw [h.thread j, hopen.1] at hlocked
        cases hlocked
    · cases ht
      exact h
  · cases ht

theorem of_close (h : Invariant s) {i : Fin k} (ht : Channel.close i s = .moved t) :
    Invariant t := by
  simp only [Channel.close] at ht
  split at ht
  · rename_i hi
    have hmutex := (h.thread i).mp hi
    cases ht
    refine h.pool (h.busy (i := i) (fun he => by simp [he, ThreadPhase.locked] at hi)) _ _ _
      (fun j => ?_) (by simp [hmutex]) (h.opened_update (by simp))
    by_cases hj : j = i
    · subst hj
      simp [ThreadPhase.locked]
    · simp only [Function.update_of_ne hj, reduceCtorEq, iff_false]
      intro hlocked
      rw [h.thread j, hmutex] at hlocked
      cases hlocked
      exact hj rfl
  · cases ht

/-- The guard of a push finds nothing in transmission: neither queued nor in the funnel's hand. -/
theorem opened_clear (h : Invariant s) {i : Fin k} (hi : s.threads i = .opened) :
    s.queue = [] ∧ s.pc.load = 0 := by
  have hload := h.load
  rw [h.opened i hi, Bool.toNat_false] at hload
  exact ⟨List.length_eq_zero_iff.mp (by omega), by omega⟩

theorem hand_of_load {pc : Pc} (h : pc.load = 0) : pc.hand = [] := by
  cases pc with
  | popped bundle =>
    cases bundle with
    | none => rfl
    | some b => cases h
  | sending b => cases h
  | _ => rfl

theorem of_push (h : Invariant s) {C : Channel Ω π} {i : Fin k} {packet : TaskPacket}
    {functionId : ℤ} (ht : C.push i packet functionId s = .moved t) : Invariant t := by
  simp only [Channel.push] at ht
  split at ht
  · rename_i hi
    split at ht
    · rename_i worker hpush
      obtain ⟨_, hout⟩ := C.forcePush_eq_ok _ _ _ _ hpush
      obtain ⟨hqueue, hload⟩ := h.opened_clear hi
      have hbusy := h.busy (i := i) (by simp [hi])
      have hmutex := (h.thread i).mp (by simp [hi, ThreadPhase.locked])
      cases ht
      exact {
        thread := h.thread_update (by simp [hi, ThreadPhase.locked])
        funnel := h.funnel
        opened := fun j hj => by
          have hj : Function.update s.threads i .pushed j = .opened := hj
          have hne : j ≠ i := by
            rintro rfl
            simp at hj
          rw [Function.update_of_ne hne] at hj
          have hother := (h.thread j).mp (by simp [hj, ThreadPhase.locked])
          rw [hmutex] at hother
          cases hother
          exact absurd rfl hne
        load := by simp [State.queue, State.transmitting, hout, hload]
        log := by
          rw [h.log, hqueue, hand_of_load hload, State.queue, hout]
          simp
        done := fun hd => absurd hd (by simpa using hbusy)
        drained := fun hd => absurd hd (by simpa using Pc.done_of_drained hbusy) }
    · cases ht
  · cases ht

theorem of_pop (h : Invariant s) (C : Channel Ω π) {next : Pc}
    (hnext : next.load = 0 ∧ next.locked = false)
    (hload : s.pc.load = 0) (hlocked : s.pc.locked = false)
    (hdone : next.done = true → isDone s = true) :
    Invariant (C.pop (Channel.orElse next) s) := by
  have hhand := hand_of_load hload
  have hmutex : s.mutex ≠ some .funnel := fun hm => by
    rw [h.funnel.mpr hm] at hlocked
    cases hlocked
  unfold Channel.pop
  split
  · rename_i hqueue
    exact h.goTo _ _ (fun _ => Iff.rfl) (by simp [Channel.orElse, hnext.2, hmutex])
      (by rw [hload]; exact hnext.1) (by rw [hhand]; exact hand_of_load hnext.1) hdone
      (fun _ => hqueue)
  · rename_i b rest hqueue
    have hload' := h.load
    have hlog := h.log
    rw [hqueue, List.length_cons, hload] at hload'
    rw [hqueue, hhand] at hlog
    exact {
      thread := h.thread
      funnel := by simp [Channel.orElse, Pc.locked, hmutex]
      opened := fun i hi => by
        simpa [State.transmitting, C.outgoing_setOutgoing] using h.opened i hi
      load := by
        simpa [State.queue, State.transmitting, C.outgoing_setOutgoing, Channel.orElse, Pc.load]
          using hload'
      log := by
        simpa [State.queue, C.outgoing_setOutgoing, Channel.orElse, Pc.hand] using hlog
      done := fun hd => by cases hd
      drained := fun hd => by cases hd }

theorem of_lock (h : Invariant s) {next : Pc} (ht : Channel.lock next s = .moved t)
    (hnext : next.locked = true ∧ next.done = false) (hload : next.load = s.pc.load)
    (hhand : next.hand = s.pc.hand) : Invariant t := by
  simp only [Channel.lock] at ht
  split at ht
  · rename_i hmutex
    cases ht
    exact h.goTo next (some .funnel) (fun i => by simp [hmutex]) (by simp [hnext.1]) hload hhand
      (fun hd => absurd hd (by simp [hnext.2]))
      (fun hd => absurd hd (by simp [Pc.done_of_drained hnext.2]))
  · cases ht

theorem of_send (h : Invariant s) {C : Channel Ω π} {b : TaskBundle} (hpc : s.pc = .sending b)
    (ht : C.send b s = .moved t) : Invariant t := by
  simp only [Channel.send] at ht
  split at ht
  · rename_i worker hsend
    have hout := C.sendTask_eq_ok _ _ _ hsend
    have hlog := h.log
    rw [hpc, Pc.hand] at hlog
    cases ht
    exact {
      thread := h.thread
      funnel := by simpa [hpc, Pc.locked] using h.funnel
      opened := fun i hi => (congrArg Outgoing.transmitting hout).trans (h.opened i hi)
      load := by simpa [hpc, State.queue, State.transmitting, hout, Pc.load] using h.load
      log := by simpa [State.queue, hout, Pc.hand] using hlog
      done := fun hd => by cases hd
      drained := fun hd => by cases hd }
  · cases ht

theorem of_endTransmission (h : Invariant s) {C : Channel Ω π} (hpc : s.pc = .sent)
    (ht : C.endTransmission s = .moved t) : Invariant t := by
  have hmutex := h.funnel.mp (by simp [hpc, Pc.locked])
  simp only [Channel.endTransmission] at ht
  split at ht
  · rename_i hqueue
    have hlog := h.log
    have hq : (Outbox.outgoing s.worker).tasksBundleQueue = [] := hqueue
    simp only [hpc, Pc.hand, hqueue] at hlog
    cases ht
    exact {
      thread := fun i => by simp [h.thread i, hmutex]
      funnel := by simp [Pc.locked]
      opened := fun i hi => by simp [State.transmitting, C.outgoing_setOutgoing]
      load := by simp [State.queue, State.transmitting, C.outgoing_setOutgoing, hq, Pc.load]
      log := by simpa [State.queue, C.outgoing_setOutgoing, hq, Pc.hand] using hlog
      done := fun hd => by cases hd
      drained := fun hd => by cases hd }
  · cases ht

theorem of_poll (h : Invariant s) (C : Channel Ω π) (message : π) (hpc : s.pc = .polling) :
    Invariant (C.poll message s) := by
  have hmutex := h.funnel.mp (by simp [hpc, Pc.locked])
  have hpolled := h.goTo .polled none (fun i => by simp [hmutex]) (by simp [Pc.locked])
    (by simp [hpc, Pc.load]) (by simp [hpc, Pc.hand]) (fun hd => by cases hd)
    (fun hd => by cases hd)
  exact hpolled.of_outgoing_eq (C.outgoing_pollSection message s.worker)

theorem of_leave (h : Invariant s) (hpc : s.pc = .leaving) (ht : Channel.leave s = .moved t) :
    Invariant t := by
  simp only [Channel.leave] at ht
  split at ht
  · rename_i hqueue
    cases ht
    exact h.goTo .outside s.mutex (fun _ => Iff.rfl) (by simpa [hpc, Pc.locked] using h.funnel)
      (by simp [hpc, Pc.load]) (by simp [hpc, Pc.hand]) (fun _ => h.done (by simp [hpc, Pc.done]))
      (fun _ => by simpa using hqueue)
  · cases ht

theorem of_funnel (h : Invariant s) {C : Channel Ω π} {message : π}
    (ht : C.funnel message s = .moved t) : Invariant t := by
  unfold Channel.funnel at ht
  split at ht
  case h_1 => cases ht
  case h_2 hpc =>
    cases ht
    have hpop : Invariant (C.pop (Channel.orElse (.popped none)) s) :=
      h.of_pop C ⟨rfl, rfl⟩ (by simp [hpc, Pc.load]) (by simp [hpc, Pc.locked])
        (fun hd => by cases hd)
    rwa [show Channel.orElse (.popped none) = Pc.popped from funext fun b => by cases b <;> rfl]
      at hpop
  case h_3 b hpc =>
    exact h.of_lock ht ⟨rfl, rfl⟩ (by simp [hpc, Pc.load]) (by simp [hpc, Pc.hand])
  case h_4 b hpc => exact h.of_send hpc ht
  case h_5 hpc => exact h.of_endTransmission hpc ht
  case h_6 hpc =>
    exact h.of_lock ht ⟨rfl, rfl⟩ (by simp [hpc, Pc.load]) (by simp [hpc, Pc.hand])
  case h_7 hpc =>
    cases ht
    exact h.of_poll C message hpc
  case h_8 hpc =>
    cases ht
    exact h.of_pop C ⟨rfl, rfl⟩ (by simp [hpc, Pc.load]) (by simp [hpc, Pc.locked])
      (fun hd => by cases hd)
  case h_9 hpc =>
    cases ht
    split
    · rename_i hdone
      exact h.goTo .confirming s.mutex (fun _ => Iff.rfl) (by simpa [hpc, Pc.locked] using h.funnel)
        (by simp [hpc, Pc.load]) (by simp [hpc, Pc.hand]) (fun _ => hdone) (fun hd => by cases hd)
    · exact h.goTo (.popped none) s.mutex (fun _ => Iff.rfl)
        (by simpa [hpc, Pc.locked] using h.funnel)
        (by simp [hpc, Pc.load]) (by simp [hpc, Pc.hand]) (fun hd => by cases hd)
        (fun hd => by cases hd)
  case h_10 hpc =>
    cases ht
    exact h.of_pop C ⟨rfl, rfl⟩ (by simp [hpc, Pc.load]) (by simp [hpc, Pc.locked])
      (fun _ => h.done (by simp [hpc, Pc.done]))
  case h_11 hpc => exact h.of_leave hpc ht

theorem step (h : Invariant s) {C : Channel Ω π} {e : Event π k} (ht : C.step e s = .moved t) :
    Invariant t := by
  cases e with
  | processMessage tasks => exact h.of_processMessage ht
  | receive message => exact h.of_receive ht
  | start i => exact h.of_start ht
  | submit i => exact h.of_submit ht
  | finish i => exact h.of_finish ht
  | tryOpen i => exact h.of_tryOpen ht
  | push i packet functionId => exact h.of_push ht
  | close i => exact h.of_close ht
  | funnel message => exact h.of_funnel ht

/-- The queue is empty when a thread holds the guard and when the send section ends. -/
theorem not_raised (h : Invariant s) {C : Channel Ω π} {e : Event π k} {fault : Fault}
    (ht : C.step e s = .raised fault) :
    fault ∉ [Fault.queueNotEmpty, .taskFoundInQueue, .leavingWithPendingMessage] := by
  cases e with
  | push i packet functionId =>
    simp only [Channel.step, Channel.push] at ht
    split at ht
    · rename_i hi
      split at ht
      · cases ht
      · rename_i hpush
        cases ht
        obtain rfl | rfl | ⟨hqueue, _⟩ := C.forcePush_eq_error _ _ _ _ hpush
        · decide
        · decide
        · exact absurd (h.opened_clear hi).1 hqueue
    · cases ht
  | funnel message =>
    simp only [Channel.step, Channel.funnel] at ht
    split at ht <;> try cases ht
    case h_3 =>
      simp only [Channel.lock] at ht
      split at ht <;> cases ht
    case h_4 =>
      simp only [Channel.send] at ht
      split at ht
      · cases ht
      · rename_i hsend
        cases ht
        rcases C.sendTask_eq_error _ _ _ hsend with rfl | rfl | rfl <;> decide
    case h_5 hpc =>
      have hload := h.load
      rw [hpc, Pc.load] at hload
      have hqueue : s.queue = [] := by
        have hle := Bool.toNat_le s.transmitting
        exact List.length_eq_zero_iff.mp (by omega)
      simp [Channel.endTransmission, hqueue] at ht
    case h_6 =>
      simp only [Channel.lock] at ht
      split at ht <;> cases ht
    case h_11 hpc =>
      simp [Channel.leave, h.drained (by simp [hpc, Pc.drained])] at ht
  | _ =>
    simp only [Channel.step, Channel.processMessage, Channel.receive, Channel.start, Channel.submit,
      Channel.finish, Channel.tryOpen, Channel.close] at ht
    repeat' split at ht
    all_goals cases ht

end Invariant

theorem invariant_of_reachable {C : Channel Ω π} {worker : Ω}
    (hworker : Outbox.outgoing worker = .initial) {s : State Ω k}
    (h : (C.machine k worker).Reachable s) : Invariant s := by
  refine h.invariant (I := Invariant) ?_ fun s e t _ hs _ ht => hs.step ht
  rintro s rfl
  exact invariant_initial worker hworker

/-- Every accepted bundle is sent, in the hand of the funnel or queued, in this order; all are
sent when the funnel returns; and the three throws are out of reach. -/
structure LosesNoTask (C : Channel Ω π) (s : State Ω k) : Prop where
  accounted : s.accepted = s.sent ++ s.pc.hand ++ s.queue
  queue_le : s.queue.length ≤ 1
  returned : s.pc = .outside → s.sent = s.accepted
  not_raised : ∀ e fault, C.step e s = .raised fault →
    fault ∉ [Fault.queueNotEmpty, .taskFoundInQueue, .leavingWithPendingMessage]

theorem Invariant.guarantees {s : State Ω k} (h : Invariant s) (C : Channel Ω π) :
    LosesNoTask C s where
  accounted := h.log
  queue_le := by
    have hload := h.load
    have hle := Bool.toNat_le s.transmitting
    omega
  returned hpc := by
    have hlog := h.log
    rw [h.drained (by simp [hpc, Pc.drained]), hpc] at hlog
    simpa [Pc.hand] using hlog.symm
  not_raised _ _ ht := h.not_raised ht

end

variable {W : World}

/-- The semi-centralized worker of rank `me`: a poll section may receive its next processes. -/
def semiChannel (me : WorkerRank W) :
    Channel (SemiOutbox (WorkerRank W)) (Option (List (WorkerRank W))) where
  setOutgoing out x := { x with toOutgoing := out }
  tryOpenTransmissionChannel := SemiOutbox.tryOpenTransmissionChannel
  forcePush := SemiOutbox.forcePush
  sendTask b x := (x.sendTask me b).map Prod.snd
  pollSection := SemiOutbox.pollSection
  outgoing_setOutgoing _ _ := rfl
  not_transmitting x h := by
    simp only [SemiOutbox.tryOpenTransmissionChannel, Bool.and_eq_true] at h
    exact Bool.not_eq_true' _ |>.mp h.1
  forcePush_eq_ok packet functionId x y h := by
    obtain ⟨_, _, hqueue, rfl⟩ := SemiOutbox.forcePush_eq_ok h
    exact ⟨hqueue, rfl⟩
  forcePush_eq_error _ _ _ _ := SemiOutbox.forcePush_eq_error
  sendTask_eq_ok b x y h := by
    simp only [SemiOutbox.sendTask] at h
    split at h
    · cases h
    · split at h
      · split at h <;> cases h
        rfl
      · cases h
  sendTask_eq_error b x e h := by
    simp only [SemiOutbox.sendTask] at h
    split at h
    · cases h
      exact Or.inl rfl
    · split at h
      · split at h <;> cases h
        exact Or.inr (Or.inl rfl)
      · cases h
        exact Or.inr (Or.inr rfl)
  outgoing_pollSection := SemiOutbox.pollSection_toOutgoing

/-- The centralized worker: a poll section may learn whether the center is full. -/
def centerChannel : Channel CenterOutbox (Option Bool) where
  setOutgoing out x := { x with toOutgoing := out }
  tryOpenTransmissionChannel := CenterOutbox.tryOpenTransmissionChannel
  forcePush := CenterOutbox.forcePush
  sendTask _ x := .ok x
  pollSection full x := { x with isCenterFull := full.getD x.isCenterFull }
  outgoing_setOutgoing _ _ := rfl
  not_transmitting x h := by
    simp only [CenterOutbox.tryOpenTransmissionChannel, Bool.and_eq_true] at h
    exact Bool.not_eq_true' _ |>.mp h.1
  forcePush_eq_ok packet functionId x y h := by
    obtain ⟨hqueue, rfl⟩ := CenterOutbox.forcePush_eq_ok h
    exact ⟨hqueue, rfl⟩
  forcePush_eq_error _ _ _ _ h := by
    obtain he | he := CenterOutbox.forcePush_eq_error h
    · exact Or.inl he
    · exact Or.inr (Or.inr he)
  sendTask_eq_ok _ _ _ h := by
    cases h
    rfl
  sendTask_eq_error _ _ _ h := by cases h
  outgoing_pollSection _ _ := rfl

theorem losesNoTask (k : ℕ) (me : WorkerRank W) :
    (∀ s, ((semiChannel me).machine k (.initial W.size)).Reachable s →
      LosesNoTask (semiChannel me) s) ∧
    ∀ s, (centerChannel.machine k .initial).Reachable s → LosesNoTask centerChannel s :=
  ⟨fun _ h => (invariant_of_reachable rfl h).guarantees _,
    fun _ h => (invariant_of_reachable rfl h).guarantees _⟩

/-! A task is pushed after the funnel has seen the queue empty; the second pop finds it. -/

def loop {π : Type} (first last : π) : List (Event π 1) :=
  [.processMessage 1, .start 0, .funnel first, .funnel first, .funnel first, .tryOpen 0,
    .funnel first, .push 0 [7] 1, .close 0, .finish 0, .funnel last, .funnel last, .funnel last,
    .funnel last, .funnel last, .funnel last, .funnel last, .funnel last, .funnel last,
    .funnel last, .funnel last]

def semiLoop : List (Event (Option (List (WorkerRank NextProcess.four))) 1) :=
  loop (some [NextProcess.second]) none

theorem semiLoop_runs : (((semiChannel NextProcess.four.firstWorker).machine 1
    (.initial 4)).run semiLoop (initialState (.initial 4))).isSome = true := by
  decide

theorem loop_runs : ((centerChannel.machine 1 .initial).run (loop none none)
    (initialState .initial)).isSome = true := by
  decide

theorem losesNoTask_loop :
    LosesNoTask (semiChannel NextProcess.four.firstWorker)
      ((((semiChannel NextProcess.four.firstWorker).machine 1 (.initial 4)).run semiLoop
        (initialState (.initial 4))).get semiLoop_runs) ∧
    LosesNoTask centerChannel (((centerChannel.machine 1 .initial).run (loop none none)
      (initialState .initial)).get loop_runs) := by
  have hsemi : ((semiChannel NextProcess.four.firstWorker).machine 1
      (.initial 4)).Reachable (initialState (.initial 4)) := .start rfl
  have hcenter : (centerChannel.machine 1 .initial).Reachable (initialState .initial) := .start rfl
  exact ⟨(losesNoTask 1 NextProcess.four.firstWorker).1 _ (hsemi.run (Option.some_get _).symm),
    (losesNoTask 1 NextProcess.four.firstWorker).2 _ (hcenter.run (Option.some_get _).symm)⟩

end Gempba.Funnel
