import Gempba.Schedulers.Bookkeeping

/-!
# The books of the coordinator agree with the state

Every step moves at most the stages of the workers it is about, and the two
counters with them. Once the center has left its loop the stages are given up,
the counters and the logs stay.
-/

namespace Gempba.Centralized

set_option autoImplicit false

open Transition

variable {W : World}

structure Booked (s : State W) (b : Books W) : Prop where
  available : s.nodesAvailable =
    (Finset.univ.filter fun w => s.processState w = .AVAILABLE_STATE).card
  running : s.nodesRunning =
    (Finset.univ.filter fun w => reportedRunning (b.log w) = true).card
  outstanding : ∀ w, outstanding (b.log w) =
    if s.processState w = .AVAILABLE_STATE then 0 else 1
  queued : ∀ w tag, s.notices.count (w, tag) = (b.inFlight w).count tag
  stage : s.centerPhase = .receiving → ∀ w, Stage (view s b w)

theorem card_filter_append {ρ : Type} [Fintype ρ] [DecidableEq ρ] {p q : ρ → Prop}
    [DecidablePred p] [DecidablePred q] {l : List ρ} (hl : l.Nodup) (hp : ∀ r ∈ l, ¬ p r)
    (hq : ∀ r, q r ↔ p r ∨ r ∈ l) :
    (Finset.univ.filter q).card = (Finset.univ.filter p).card + l.length := by
  have hunion : Finset.univ.filter q = Finset.univ.filter p ∪ l.toFinset := by
    ext r
    simp [hq]
  have hdisjoint : Disjoint (Finset.univ.filter p) l.toFinset := by
    rw [Finset.disjoint_left]
    intro r hr hrl
    exact hp r (List.mem_toFinset.mp hrl) (Finset.mem_filter.mp hr).2
  rw [hunion, Finset.card_union_of_disjoint hdisjoint, List.toFinset_card_of_nodup hl]

theorem outstanding_replicate (n : ℕ) (log : List Entry) :
    outstanding (List.replicate n .task ++ log) = n + outstanding log := by
  induction n with
  | zero => simp
  | succ n ih =>
    rw [List.replicate_succ, List.cons_append, outstanding, ih]
    omega

theorem reportedRunning_replicate (n : ℕ) (log : List Entry) :
    reportedRunning (List.replicate n .task ++ log) = reportedRunning log := by
  induction n with
  | zero => rfl
  | succ n ih => rw [List.replicate_succ, List.cons_append, reportedRunning, ih]

theorem toWorker_sendToAvailable (sent : List (WorkerRank W × Ticketed)) (n : TaskNetwork W)
    (w : WorkerRank W) :
    toWorker w (sendToAvailable sent n).tasks =
      (sent.map Prod.fst).count w + toWorker w n.tasks := by
  rw [toWorker, sendToAvailable_tasks, Multiset.countP_add, Multiset.coe_countP,
    List.countP_reverse, List.countP_map, List.count, List.countP_map]
  congr 1

section Queues

variable {notices : Multiset (WorkerRank W × StateTag)} {queues : WorkerRank W → List StateTag}

theorem queued_notify (h : ∀ w tag, notices.count (w, tag) = (queues w).count tag)
    (w : WorkerRank W) (tag : StateTag) (x : WorkerRank W) (tag' : StateTag) :
    ((w, tag) ::ₘ notices).count (x, tag') =
      (Function.update queues w (queues w ++ [tag]) x).count tag' := by
  obtain rfl | hx := eq_or_ne x w
  · rw [Function.update_self, List.count_append, Multiset.count_cons, h]
    congr 1
    obtain rfl | htag := eq_or_ne tag' tag
    · simp
    · simp [htag, htag.symm]
  · rw [Function.update_of_ne hx, Multiset.count_cons_of_ne fun he => hx (congrArg Prod.fst he), h]

theorem queued_receive (h : ∀ w tag, notices.count (w, tag) = (queues w).count tag)
    {w : WorkerRank W} {tag : StateTag} {rest : List StateTag} (hw : queues w = tag :: rest)
    (x : WorkerRank W) (tag' : StateTag) :
    (notices.erase (w, tag)).count (x, tag') = (Function.update queues w rest x).count tag' := by
  obtain rfl | hx := eq_or_ne x w
  · rw [Function.update_self]
    have hx := h x tag'
    rw [hw] at hx
    obtain rfl | htag := eq_or_ne tag' tag
    · rw [Multiset.count_erase_self, hx, List.count_cons_self, Nat.add_sub_cancel]
    · rw [Multiset.count_erase_of_ne fun he => htag (congrArg Prod.snd he), hx,
        List.count_cons_of_ne htag.symm]
  · rw [Function.update_of_ne hx, Multiset.count_erase_of_ne fun he => hx (congrArg Prod.fst he),
      h]

end Queues

/-- A step of the shared protocol that the books do not see. -/
structure Unseen (s t : SchedulerState W CenterOutbox) : Prop where
  executing : ∀ w, (t.worker w).phase = .executing ↔ (s.worker w).phase = .executing
  tasks : ∀ w, toWorker w t.network.tasks = toWorker w s.network.tasks
  notices : t.notices = s.notices
  receiving : t.centerPhase = .receiving → s.centerPhase = .receiving

section Unseen

variable {s t : SchedulerState W CenterOutbox}

theorem Unseen.ofNetwork {n : TaskNetwork W}
    (htasks : ∀ w, toWorker w n.tasks = toWorker w s.network.tasks) :
    Unseen s { s with network := n } :=
  ⟨fun _ => Iff.rfl, htasks, rfl, id⟩

theorem Unseen.setWorker (h : Unseen s t) (w : WorkerRank W) (v : Worker CenterOutbox)
    (hphase : v.phase = .executing ↔ (s.worker w).phase = .executing) :
    Unseen s (t.setWorker w v) := by
  refine ⟨fun x => ?_, h.tasks, h.notices, h.receiving⟩
  obtain rfl | hx := eq_or_ne x w
  · simpa [SchedulerState.setWorker] using hphase
  · simpa [SchedulerState.setWorker, Function.update_of_ne hx] using h.executing x

theorem Unseen.refl (s : SchedulerState W CenterOutbox) : Unseen s s :=
  ⟨fun _ => Iff.rfl, fun _ => rfl, rfl, id⟩

theorem unseen_push {tryOpen : CenterOutbox → Bool}
    {forcePush : CenterOutbox → Except Fault CenterOutbox} {w : WorkerRank W}
    (h : s.push tryOpen forcePush w = .moved t) : Unseen s t := by
  obtain ⟨_, _, outbox, _, rfl⟩ := SchedulerState.push_moved h
  exact (Unseen.refl s).setWorker w _ Iff.rfl

theorem unseen_updateOutbox {phases : List WorkerPhase} {f : CenterOutbox → CenterOutbox}
    {w : WorkerRank W} (h : s.updateOutbox phases f w = .moved t) : Unseen s t := by
  obtain ⟨_, rfl⟩ := SchedulerState.updateOutbox_moved h
  exact (Unseen.refl s).setWorker w _ Iff.rfl

theorem sendSection_center {o : CenterOutbox} {r : Rank W} {bundle : TaskBundle}
    {o' : CenterOutbox} (h : sendSection o = some (.ok (r, bundle, o'))) : r = W.center := by
  obtain ⟨sent, _, hsent⟩ := Option.map_eq_some_iff.mp h
  cases sent with
  | error e => cases hsent
  | ok rest =>
    cases hsent
    rfl

theorem unseen_send {w : WorkerRank W} (h : s.send sendSection w = .moved t) : Unseen s t := by
  obtain ⟨_, destination, bundle, outbox, hsend, rfl⟩ := SchedulerState.send_moved h
  obtain rfl := sendSection_center hsend
  have hnet : Unseen s (s.mapNetwork (·.sendTask ⟨w, W.center, bundle⟩)) := by
    refine Unseen.ofNetwork fun x => ?_
    rw [TaskNetwork.sendTask_tasks]
    exact toWorker_cons_of_ne x.property.symm s.network.tasks
  exact hnet.setWorker w _ Iff.rfl

theorem unseen_receiveAck {w : WorkerRank W} {source : Rank W}
    (h : s.receiveAck w source = .moved t) : Unseen s t := by
  have htasks := SchedulerState.receiveAck_tasks h
  obtain ⟨_, _, network, _, rfl⟩ := SchedulerState.receiveAck_moved h
  exact Unseen.ofNetwork fun x => congrArg (toWorker x) htasks

theorem unseen_centerAck {source : Rank W} (h : s.centerAck source = .moved t) : Unseen s t := by
  have htasks := SchedulerState.centerAck_tasks h
  obtain ⟨_, _, network, _, rfl⟩ := SchedulerState.centerAck_moved h
  exact Unseen.ofNetwork fun x => congrArg (toWorker x) htasks

theorem unseen_processTermination {w : WorkerRank W}
    (h : s.processTermination w = .moved t) : Unseen s t := by
  obtain ⟨hphase, _, rfl⟩ := SchedulerState.processTermination_moved h
  have herased : Unseen s { s with terminations := s.terminations.erase w } :=
    ⟨fun _ => Iff.rfl, fun _ => rfl, rfl, id⟩
  apply herased.setWorker w _
  simp [hphase]

theorem unseen_sendFinalSolution {w : WorkerRank W} {report : Report}
    (h : s.sendFinalSolution w report = .moved t) : Unseen s t := by
  obtain ⟨hphase, _, rfl⟩ := SchedulerState.sendFinalSolution_moved h
  have hadded : Unseen s { s with reports := (w, report) ::ₘ s.reports } :=
    ⟨fun _ => Iff.rfl, fun _ => rfl, rfl, id⟩
  apply hadded.setWorker w _
  simp [hphase]

theorem unseen_centerBarrier (h : s.centerBarrier = .moved t) : Unseen s t := by
  obtain ⟨_, _, rfl⟩ := SchedulerState.centerBarrier_moved h
  exact ⟨fun _ => Iff.rfl, fun _ => rfl, rfl, fun hphase => by cases hphase⟩

theorem unseen_notifyTermination (s : SchedulerState W CenterOutbox) :
    Unseen s s.notifyTermination :=
  ⟨fun _ => Iff.rfl, fun _ => rfl, rfl, fun hphase => by cases hphase⟩

end Unseen

namespace Booked

variable {s t : State W} {b : Books W}

theorem unseen (h : Booked s b) {u : SchedulerState W CenterOutbox}
    (hu : Unseen s.toSchedulerState u) : Booked { s with toSchedulerState := u } b where
  available := h.available
  running := h.running
  outstanding := h.outstanding
  queued w tag := by
    rw [← h.queued w tag]
    exact congrArg _ hu.notices
  stage hphase w :=
    (h.stage (hu.receiving hphase) w).congr Iff.rfl rfl (hu.tasks w) (hu.executing w) rfl

theorem processMessage (h : Booked s b) {u : SchedulerState W CenterOutbox} {w : WorkerRank W}
    {source : Rank W} {bundle : TaskBundle}
    (hu : s.toSchedulerState.processMessage w source bundle = .moved u) :
    Booked { s with toSchedulerState := u } (b.notify w .RUNNING_STATE) := by
  obtain ⟨hphase, hmem, rfl⟩ := SchedulerState.processMessage_moved hu
  refine ⟨h.available, h.running, h.outstanding, ?_, fun hreceiving x => ?_⟩
  · exact queued_notify h.queued w .RUNNING_STATE
  · have hstage := h.stage hreceiving x
    have htasks : ∀ n : TaskNetwork W, (n.receiveTask ⟨source, w, bundle⟩).tasks =
        n.tasks.erase ⟨source, w, bundle⟩ := TaskNetwork.receiveTask_tasks _
    obtain rfl | hx := eq_or_ne x w
    · have hcount : toWorker x s.network.tasks =
          toWorker x (s.network.tasks.erase ⟨source, x, bundle⟩) + 1 := by
        conv_lhs => rw [← Multiset.cons_erase hmem]
        exact toWorker_cons rfl _
      have hexec : ¬ (view s b x).executing := by
        simp [view, hphase]
      refine (hstage.accept hexec hcount).congr Iff.rfl rfl ?_ ?_ ?_
      · exact congrArg (toWorker x) (htasks s.network)
      · simp [view, SchedulerState.setWorker]
      · simp [view, Books.notify]
    · refine hstage.congr Iff.rfl rfl ?_ ?_ ?_
      · have hne : w.val ≠ x.val := fun he => hx (Subtype.ext he).symm
        have hsame : toWorker x s.network.tasks =
            toWorker x (s.network.tasks.erase ⟨source, w, bundle⟩) := by
          conv_lhs => rw [← Multiset.cons_erase hmem]
          exact toWorker_cons_of_ne hne _
        exact (congrArg (toWorker x) (htasks s.network)).trans hsame.symm
      · simp [view, SchedulerState.setWorker, Function.update_of_ne hx, SchedulerState.notify,
          SchedulerState.mapNetwork]
      · simp [view, Books.notify, Function.update_of_ne hx]

theorem leaveFunnel (h : Booked s b) {u : SchedulerState W CenterOutbox} {w : WorkerRank W}
    (hu : s.toSchedulerState.leaveFunnel w = .moved u) :
    Booked { s with toSchedulerState := u } (b.notify w .AVAILABLE_STATE) := by
  have htasks := SchedulerState.leaveFunnel_tasks hu
  obtain ⟨hphase, _, rfl⟩ := SchedulerState.leaveFunnel_moved hu
  refine ⟨h.available, h.running, h.outstanding, ?_, fun hreceiving x => ?_⟩
  · exact queued_notify h.queued w .AVAILABLE_STATE
  · have hstage := h.stage hreceiving x
    obtain rfl | hx := eq_or_ne x w
    · refine (hstage.leave hphase).congr Iff.rfl rfl (congrArg (toWorker x) htasks) ?_ ?_
      · simp [view, SchedulerState.setWorker]
      · simp [view, Books.notify]
    · refine hstage.congr Iff.rfl rfl (congrArg (toWorker x) htasks) ?_ ?_
      · simp [view, SchedulerState.setWorker, Function.update_of_ne hx, SchedulerState.notify,
          SchedulerState.mapNetwork]
      · simp [view, Books.notify, Function.update_of_ne hx]

theorem receive (h : Booked s b) {w : WorkerRank W} {tag : StateTag} {rest : List StateTag}
    (hw : b.inFlight w = tag :: rest) {u : SchedulerState W CenterOutbox}
    (hnotices : u.notices = s.notices.erase (w, tag)) (hphase : u.centerPhase ≠ .receiving) :
    Booked { s with toSchedulerState := u }
      { b with inFlight := Function.update b.inFlight w rest } := by
  refine ⟨h.available, h.running, h.outstanding, fun x tag' => ?_, fun hu => absurd hu hphase⟩
  rw [← queued_receive h.queued hw x tag', ← hnotices]

theorem processRunning (h : Booked s b) (hphase : s.centerPhase = .receiving)
    {w : WorkerRank W} {rest : List StateTag} (hw : b.inFlight w = .RUNNING_STATE :: rest) :
    Booked (processRunning w { s with notices := s.notices.erase (w, .RUNNING_STATE) })
      (Books.process w .RUNNING_STATE
        { b with inFlight := Function.update b.inFlight w rest }) := by
  obtain ⟨hassigned, hrunning, hstage⟩ := (h.stage hphase w).processRunning hw
  have hassigned : s.processState w ≠ .AVAILABLE_STATE := hassigned
  have hrunning : reportedRunning (b.log w) = false := hrunning
  constructor
  · refine h.available.trans (congrArg _ (congrArg Finset.card (Finset.filter_congr ?_)))
    intro x _
    obtain rfl | hx := eq_or_ne x w
    · simp [Centralized.processRunning, hassigned]
    · simp [Centralized.processRunning, Function.update_of_ne hx]
  · have hcard := card_filter_append (List.nodup_singleton w)
      (p := fun x => reportedRunning (b.log x) = true)
      (q := fun x => reportedRunning (Function.update b.log w
        (.report .RUNNING_STATE :: b.log w) x) = true)
      (fun x hx => by simp [List.mem_singleton.mp hx, hrunning]) fun x => by
        obtain rfl | hx := eq_or_ne x w
        · simp [reportedRunning]
        · simp [hx]
    change s.nodesRunning + 1 = _
    rw [h.running]
    exact_mod_cast hcard.symm
  · intro x
    have hx := h.outstanding x
    obtain rfl | hne := eq_or_ne x w
    · rw [if_neg hassigned] at hx
      simpa [Centralized.processRunning, Books.process, Centralized.outstanding] using hx
    · simpa [Centralized.processRunning, Books.process, Function.update_of_ne hne] using hx
  · exact queued_receive h.queued hw
  · intro _ x
    obtain rfl | hx := eq_or_ne x w
    · refine hstage.congr ?_ ?_ rfl Iff.rfl ?_
      · simp [view, Centralized.processRunning]
      · simp [view, Books.process, reportedRunning]
      · simp [view, Books.process]
    · refine (h.stage hphase x).congr ?_ ?_ rfl Iff.rfl ?_
      · simp [view, Centralized.processRunning, Function.update_of_ne hx]
      · simp [view, Books.process, Function.update_of_ne hx]
      · simp [view, Books.process, Function.update_of_ne hx]

theorem processAvailable (h : Booked s b) (hphase : s.centerPhase = .receiving)
    {w : WorkerRank W} {rest : List StateTag} (hw : b.inFlight w = .AVAILABLE_STATE :: rest) :
    Booked (processAvailable w { s with notices := s.notices.erase (w, .AVAILABLE_STATE) })
      (Books.process w .AVAILABLE_STATE
        { b with inFlight := Function.update b.inFlight w rest }) := by
  obtain ⟨hassigned, hrunning, hstage⟩ := (h.stage hphase w).processAvailable hw
  have hassigned : s.processState w ≠ .AVAILABLE_STATE := hassigned
  have hrunning : reportedRunning (b.log w) = true := hrunning
  constructor
  · have hcard := card_filter_append (List.nodup_singleton w)
      (p := fun x => s.processState x = .AVAILABLE_STATE)
      (q := fun x => Function.update s.processState w .AVAILABLE_STATE x = .AVAILABLE_STATE)
      (fun x hx => by simp [List.mem_singleton.mp hx, hassigned]) fun x => by
        obtain rfl | hx := eq_or_ne x w
        · simp
        · simp [hx]
    change s.nodesAvailable + 1 = _
    rw [h.available]
    exact_mod_cast hcard.symm
  · have hcard := card_filter_append (List.nodup_singleton w)
      (p := fun x => reportedRunning (Function.update b.log w
        (.report .AVAILABLE_STATE :: b.log w) x) = true)
      (q := fun x => reportedRunning (b.log x) = true)
      (fun x hx => by simp [List.mem_singleton.mp hx, reportedRunning]) fun x => by
        obtain rfl | hx := eq_or_ne x w
        · simp [hrunning]
        · simp [hx]
    change s.nodesRunning - 1 = _
    rw [h.running, hcard, List.length_singleton, Nat.cast_add, Nat.cast_one, add_sub_cancel_right]
    rfl
  · intro x
    have hx := h.outstanding x
    obtain rfl | hne := eq_or_ne x w
    · simp [Centralized.processAvailable, Books.process, Centralized.outstanding]
    · simpa [Centralized.processAvailable, Books.process, Function.update_of_ne hne] using hx
  · exact queued_receive h.queued hw
  · intro _ x
    obtain rfl | hx := eq_or_ne x w
    · refine hstage.congr ?_ ?_ rfl Iff.rfl ?_
      · simp [view, Centralized.processAvailable]
      · simp [view, Books.process, reportedRunning]
      · simp [view, Books.process]
    · refine (h.stage hphase x).congr ?_ ?_ rfl Iff.rfl ?_
      · simp [view, Centralized.processAvailable, Function.update_of_ne hx]
      · simp [view, Books.process, Function.update_of_ne hx]
      · simp [view, Books.process, Function.update_of_ne hx]

theorem processTaskForCenter (h : Booked s b) {source : Rank W} {bundle : TaskBundle}
    (ht : processTaskForCenter source bundle s = .moved t) : Booked t b := by
  obtain ⟨_, hmem, rfl⟩ := processTaskForCenter_moved ht
  refine ⟨h.available, h.running, h.outstanding, h.queued, fun hphase w => ?_⟩
  refine (h.stage hphase w).congr Iff.rfl rfl ?_ Iff.rfl rfl
  -- the task was on its way to the center
  have htasks := toWorker_cons_of_ne (m := ⟨source, W.center, bundle⟩) w.property.symm
    (s.network.tasks.erase ⟨source, W.center, bundle⟩)
  rw [Multiset.cons_erase hmem] at htasks
  refine Eq.trans ?_ htasks.symm
  exact congrArg (toWorker w) (TaskNetwork.receiveTask_tasks _ _)

theorem clearBuffer (h : Booked s b) {order : List Ticketed}
    (ht : clearBuffer order s = .moved t) :
    Booked t (b.dispatch (t.dispatched.drop s.dispatched.length)) := by
  obtain ⟨hphase, _, rfl⟩ := clearBuffer_moved ht
  simp only [List.drop_left]
  have hspec := dispatchToAvailable_states popFront W.workers order s.processState
  generalize dispatchToAvailable popFront W.workers order s.processState = d at hspec ⊢
  obtain ⟨_, havailable, hnodup, hstates⟩ := hspec
  constructor
  · have hcard := card_filter_append hnodup (p := fun w => d.states w = .AVAILABLE_STATE)
      (q := fun w => s.processState w = .AVAILABLE_STATE)
      (fun w hw => by simp [hstates, hw]) fun w => by
        rw [hstates]
        obtain hw | hw := Decidable.em (w ∈ d.sent.map Prod.fst)
        · simp [hw, havailable w hw]
        · simp [hw]
    change s.nodesAvailable - d.sent.length = _
    rw [h.available, hcard, List.length_map, Nat.cast_add, add_sub_cancel_right]
  · simpa only [Books.dispatch, reportedRunning_replicate] using h.running
  · intro w
    simp only [Books.dispatch, outstanding_replicate, h.outstanding w, hstates]
    obtain hw | hw := Decidable.em (w ∈ d.sent.map Prod.fst)
    · rw [List.count_eq_one_of_mem hnodup hw, if_pos (havailable w hw), if_pos hw,
        if_neg ProcessState.noConfusion]
    · rw [List.count_eq_zero_of_not_mem hw, zero_add, if_neg hw]
  · exact h.queued
  · intro _ w
    have hstage := h.stage hphase w
    have htasks := toWorker_sendToAvailable d.sent s.network w
    have hrunning := reportedRunning_replicate ((d.sent.map Prod.fst).count w) (b.log w)
    obtain hw | hw := Decidable.em (w ∈ d.sent.map Prod.fst)
    · rw [List.count_eq_one_of_mem hnodup hw, add_comm] at htasks
      have hidle : ¬ (view s b w).assigned := not_not.mpr (havailable w hw)
      refine (hstage.dispatch hidle).congr ?_ hrunning htasks Iff.rfl rfl
      simp [view, hstates, hw]
    · rw [List.count_eq_zero_of_not_mem hw, zero_add] at htasks
      refine hstage.congr ?_ hrunning htasks Iff.rfl rfl
      simp [view, hstates, hw]

theorem afterMessage (h : Booked s b) {order : List Ticketed}
    (ht : afterMessage order s = .moved t) :
    Booked t (b.dispatch (t.dispatched.drop s.dispatched.length)) := by
  simp only [Centralized.afterMessage] at ht
  split at ht
  · cases ht
    simpa [Books.dispatch] using h.unseen (unseen_notifyTermination s.toSchedulerState)
  · exact h.clearBuffer ht

theorem handle (h : Booked s b) {m : CenterMessage W} {order : List Ticketed} {c : Books W}
    (hs : handle m s = .moved t) {u : State W}
    (hreact : Books.react (.center m order) s u b = .moved c) :
    ∃ b', Booked t b' ∧ c = b'.dispatch (u.dispatched.drop s.dispatched.length) := by
  cases m with
  | state w tag =>
    obtain ⟨r, hreceive, rfl⟩ := Outcome.map_eq_moved.mp hreact
    obtain ⟨rest, hw, rfl⟩ := Books.receive_moved hreceive
    obtain ⟨v, hv, rfl⟩ := Outcome.map_eq_moved.mp hs
    obtain ⟨n, hn, rfl⟩ := lift_moved hv
    obtain ⟨hphase, _, rfl⟩ := SchedulerState.consumeIntFlag_moved hn
    refine ⟨_, ?_, rfl⟩
    cases tag with
    | RUNNING_STATE => exact h.processRunning hphase hw
    | AVAILABLE_STATE => exact h.processAvailable hphase hw
  | scoreProposal =>
    cases hreact
    refine ⟨b, ?_, rfl⟩
    simp only [Centralized.handle] at hs
    split at hs
    · cases hs
      exact h
    · cases hs
  | task source bundle =>
    cases hreact
    exact ⟨b, h.processTaskForCenter hs, rfl⟩
  | acknowledgement source =>
    cases hreact
    obtain ⟨n, hn, rfl⟩ := lift_moved hs
    exact ⟨b, h.unseen (unseen_centerAck hn), rfl⟩

theorem step (h : Booked s b) {e : Event W} {c : Books W} (hs : step e s = .moved t)
    (hreact : b.react e s t = .moved c) : Booked t c := by
  cases e with
  | processMessage w source bundle =>
    cases hreact
    obtain ⟨u, hu, rfl⟩ := lift_moved hs
    exact h.processMessage hu
  | consumeCenterFullness w isFull =>
    cases hreact
    obtain ⟨u, hu, rfl⟩ := lift_moved hs
    exact h.unseen (unseen_updateOutbox hu)
  | push w packet functionId =>
    cases hreact
    obtain ⟨u, hu, rfl⟩ := lift_moved hs
    exact h.unseen (unseen_push hu)
  | send w =>
    cases hreact
    obtain ⟨u, hu, rfl⟩ := lift_moved hs
    exact h.unseen (unseen_send hu)
  | leaveFunnel w =>
    cases hreact
    obtain ⟨u, hu, rfl⟩ := lift_moved hs
    exact h.leaveFunnel hu
  | receiveAck w source =>
    cases hreact
    obtain ⟨u, hu, rfl⟩ := lift_moved hs
    exact h.unseen (unseen_receiveAck hu)
  | processTermination w =>
    cases hreact
    obtain ⟨u, hu, rfl⟩ := lift_moved hs
    exact h.unseen (unseen_processTermination hu)
  | sendFinalSolution w report =>
    cases hreact
    obtain ⟨u, hu, rfl⟩ := lift_moved hs
    exact h.unseen (unseen_sendFinalSolution hu)
  | center m order =>
    obtain ⟨u, hu, hafter⟩ := Outcome.bind_eq_moved.mp hs
    have hdispatched := (handle_carries order hu).2
    obtain ⟨b', hbooked, rfl⟩ := h.handle hu hreact
    rw [← hdispatched]
    exact hbooked.afterMessage hafter
  | clearBuffer order =>
    cases hreact
    exact h.clearBuffer hs
  | centerBarrier =>
    cases hreact
    obtain ⟨u, hu, rfl⟩ := lift_moved hs
    exact h.unseen (unseen_centerBarrier hu)
  | receiveSolutionFrom w tag =>
    obtain ⟨u, hu, rfl⟩ := lift_moved hs
    obtain ⟨hphase, ⟨state, rfl, _, rfl⟩ | ⟨report, rfl, _, rfl⟩⟩ :=
      SchedulerState.receiveSolutionFrom_moved hu
    · obtain ⟨rest, hw, rfl⟩ := Books.receive_moved hreact
      exact h.receive hw rfl (by simp [hphase])
    · cases hreact
      exact h.unseen ⟨fun _ => Iff.rfl, fun _ => rfl, rfl,
        fun hnext => absurd hnext (nextPhase_ne_receiving w)⟩

theorem sendSeed (seed : TaskBundle) : Booked (sendSeed seed : State W) Books.sendSeed := by
  constructor
  · have hcard := card_filter_append (List.nodup_singleton W.firstWorker)
      (p := fun w => Function.update (fun _ => ProcessState.AVAILABLE_STATE) W.firstWorker
        .RUNNING_STATE w = .AVAILABLE_STATE)
      (q := fun _ => True) (fun w hw => by simp [List.mem_singleton.mp hw]) fun w => by
        obtain rfl | hw := eq_or_ne w W.firstWorker
        · simp
        · simp [hw]
    rw [Finset.filter_true, Finset.card_univ, World.card_workers,
      List.length_singleton] at hcard
    have hsize := W.two_le
    have hcast : (W.size : ℤ) - 1 - 1 = ((W.size - 1 - 1 : ℕ) : ℤ) := by omega
    refine hcast.trans (congrArg _ ?_)
    rw [hcard, Nat.add_sub_cancel]
    rfl
  · refine (congrArg Nat.cast ?_).symm
    refine Finset.card_eq_zero.mpr (Finset.filter_eq_empty_iff.mpr fun w _ => ?_)
    obtain rfl | hw := eq_or_ne w W.firstWorker
    · simp [Books.sendSeed, reportedRunning]
    · simp [Books.sendSeed, Function.update_of_ne hw, reportedRunning]
  · intro w
    obtain rfl | hw := eq_or_ne w W.firstWorker
    · simp [Books.sendSeed, Centralized.sendSeed, Centralized.outstanding]
    · simp [Books.sendSeed, Centralized.sendSeed, Function.update_of_ne hw,
        Centralized.outstanding]
  · intro w tag
    rfl
  · intro _ w
    obtain rfl | hw := eq_or_ne w W.firstWorker
    · refine .sent ?_ ?_ ?_ ?_ rfl
      · simp [view, Centralized.sendSeed]
      · simp [view, Books.sendSeed, reportedRunning]
      · exact toWorker_cons (w := W.firstWorker) (m := ⟨W.center, W.first, seed⟩) rfl 0
      · exact WorkerPhase.noConfusion
    · refine .idle ?_ ?_ ?_ ?_ rfl
      · simp [view, Centralized.sendSeed, Function.update_of_ne hw]
      · simp [view, Books.sendSeed, Function.update_of_ne hw, reportedRunning]
      · exact toWorker_cons_of_ne (fun he => hw (Subtype.ext he).symm) 0
      · exact WorkerPhase.noConfusion

/-- A worker that executes a task has no other on its way. -/
theorem no_second_task (h : Booked s b) (hphase : s.centerPhase = .receiving)
    {w : WorkerRank W} (hw : (s.worker w).phase = .executing) :
    toWorker w s.network.tasks = 0 := by
  cases h.stage hphase w with
  | accepted _ _ htasks | running _ _ htasks => exact htasks
  | idle _ _ _ hexecuting | sent _ _ _ hexecuting | ended _ _ _ hexecuting
  | finished _ _ _ hexecuting => exact absurd hw hexecuting

end Booked

theorem booked_of_reachable {s : State W × Books W} (h : (bookkept W).Reachable s) :
    (machine W).Reachable s.1 ∧ Booked s.1 s.2 := by
  refine ⟨Machine.ReachableWhere.base h, Machine.ReachableWhere.extension (I := Booked) ?_ ?_ h⟩
  · rintro s b ⟨seed, rfl⟩ rfl
    exact Booked.sendSeed seed
  · intro s b e _ t c _ hbooked hst hreact
    exact hbooked.step hst hreact

theorem books_agree {s : State W × Books W} (h : (bookkept W).Reachable s) :
    s.1.nodesAvailable =
        (Finset.univ.filter fun w => s.1.processState w = .AVAILABLE_STATE).card ∧
      0 ≤ s.1.nodesAvailable ∧
      s.1.nodesRunning =
        (Finset.univ.filter fun w => reportedRunning (s.2.log w) = true).card ∧
      ∀ w, outstanding (s.2.log w) ≤ 1 ∧
        ((s.1.worker w).phase = .executing → ∀ m ∈ s.1.network.tasks, m.destination ≠ w) := by
  obtain ⟨hreachable, hbooked⟩ := booked_of_reachable h
  refine ⟨hbooked.available, ?_, hbooked.running, fun w => ⟨?_, fun hexec m hm hdest => ?_⟩⟩
  · rw [hbooked.available]
    exact Int.natCast_nonneg _
  · rw [hbooked.outstanding w]
    split
    · exact Nat.zero_le 1
    · exact le_rfl
  · obtain hphase | hphase := eq_or_ne s.1.centerPhase .receiving
    · have hnone := hbooked.no_second_task hphase hexec
      exact Multiset.countP_eq_zero.mp hnone m hm hdest
    · have hquiet := (invariant_of_reachable hreachable).sound.quiet hphase
      exact hquiet.not_executing w hexec

theorem oneTask_bookkept : ((bookkept .pair).run (oneTask.map (·, ()))
    (sendSeed ⟨[7], 3⟩, Books.sendSeed)).isSome = true := by
  decide

theorem books_agree_oneTask : outstanding ((((bookkept .pair).run (oneTask.map (·, ()))
    (sendSeed ⟨[7], 3⟩, Books.sendSeed)).get oneTask_bookkept).2.log
      (World.firstWorker _)) ≤ 1 := by
  refine ((books_agree ?_).2.2.2 _).1
  have hstart : (bookkept .pair).Reachable (sendSeed ⟨[7], 3⟩, Books.sendSeed) :=
    .start ⟨⟨_, rfl⟩, rfl⟩
  exact hstart.run (Option.some_get _).symm

end Gempba.Centralized
