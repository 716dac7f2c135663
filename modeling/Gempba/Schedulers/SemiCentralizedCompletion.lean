import Gempba.Schedulers.Closing
import Gempba.Schedulers.Progress
import Gempba.Schedulers.RemainingWork

/-!
# The semi-centralized scheduler completes

Pool threads and the messages that assign next processes are supplied from
outside. Every other step uses up work, and until the center has heard all
workers one of them is left: no process waits for a message that never comes.
-/

namespace Gempba

set_option autoImplicit false

variable {W : World}

namespace SemiCentralized

/-! ## What a worker may be told -/

/-- Next processes of a worker are other workers, and a task fits in a message. -/
def Fits (_ : State W) : Event W → Prop
  | .receiveNextProcess w ranks => w ∉ ranks
  | .poll w ranks => ∀ r ∈ ranks, w ∉ r
  | .push _ packet _ => packet.length ≤ 2147483647
  | _ => True

instance (s : State W) (e : Event W) : Decidable (Fits s e) := by
  unfold Fits
  split <;> infer_instance

/-- The outbox of `w` is ready to send what it holds. -/
structure Ready (w : WorkerRank W) (o : SemiOutbox (WorkerRank W)) : Prop where
  next : o.nextProcess ≠ some w
  assigned : some w ∉ o.nextProcesses
  fits : ∀ b ∈ o.tasksBundleQueue, b.packet.length ≤ 2147483647
  destination : o.tasksBundleQueue ≠ [] → ∃ r, o.destinationRank = some r ∧ r ≠ w

theorem mem_shiftLeftLoop {ρ : Type} {x : Option ρ} {v : List (Option ρ)}
    (h : x ∈ shiftLeftLoop v) : x ∈ v ∨ x = none := by
  fun_induction shiftLeftLoop v with
  | case1 => exact Or.inl h
  | case2 => exact Or.inl h
  | case3 => exact Or.inl h
  | case4 a b ha hb => grind
  | case5 a b ha hb => grind
  | case6 => exact Or.inl h
  | case7 a b c rest ha ih => grind

namespace Ready

variable {w : WorkerRank W} {o o' : SemiOutbox (WorkerRank W)}

theorem initial (w : WorkerRank W) : Ready w (.initial W.size) := by
  constructor
  · simp [SemiOutbox.initial]
  · simp [SemiOutbox.initial]
  · simp [SemiOutbox.initial, Outgoing.initial]
  · simp [SemiOutbox.initial, Outgoing.initial]

theorem receiveNextProcess (h : Ready w o) {ranks : List (WorkerRank W)} (hranks : w ∉ ranks) :
    Ready w (o.receiveNextProcess ranks) := by
  refine ⟨h.next, ?_, h.fits, h.destination⟩
  intro hmem
  obtain hmem | hmem := List.mem_append.mp hmem
  · obtain ⟨r, hr, heq⟩ := List.mem_map.mp hmem
    cases heq
    exact hranks hr
  · exact h.assigned (List.mem_of_mem_drop hmem)

theorem updateNextProcess (h : Ready w o) : Ready w o.updateNextProcess := by
  refine ⟨?_, h.assigned, h.fits, h.destination⟩
  intro hnext
  apply h.assigned
  have hjoin : o.nextProcesses.head?.join = some w := hnext
  exact List.mem_of_mem_head? (Option.join_eq_some_iff.mp hjoin)

theorem pollSection (h : Ready w o) {ranks : Option (List (WorkerRank W))}
    (hranks : ∀ r ∈ ranks, w ∉ r) : Ready w (o.pollSection ranks) := by
  cases ranks with
  | none => exact h.updateNextProcess
  | some r => exact (h.receiveNextProcess (hranks r rfl)).updateNextProcess

theorem forcePush (h : Ready w o) (hopen : o.tryOpenTransmissionChannel = true)
    {packet : TaskPacket} (hpacket : packet.length ≤ 2147483647) {functionId : ℤ}
    (hpush : o.forcePush packet functionId = .ok o') : Ready w o' := by
  obtain ⟨v, hshift, _, rfl⟩ := SemiOutbox.forcePush_eq_ok hpush
  have hsome := (Bool.and_eq_true_iff.mp hopen).2
  refine ⟨h.next, ?_, ?_, ?_⟩
  · intro hmem
    rw [shiftLeft] at hshift
    split at hshift
    · cases hshift
    · cases hshift
      obtain hmem | hnone := mem_shiftLeftLoop hmem
      · exact h.assigned hmem
      · cases hnone
  · intro b hb
    obtain rfl := List.mem_singleton.mp hb
    exact hpacket
  · intro _
    obtain ⟨r, hr⟩ := Option.isSome_iff_exists.mp hsome
    refine ⟨r, hr, ?_⟩
    rintro rfl
    exact h.next hr

theorem sendSection (h : Ready w o) {r : Rank W} {bundle : TaskBundle}
    (hsend : sendSection w o = some (.ok (r, bundle, o'))) : Ready w o' := by
  obtain ⟨sent, hsent, hmap⟩ := Option.map_eq_some_iff.mp hsend
  cases sent with
  | error e => cases hmap
  | ok sent =>
    obtain ⟨destination, b, rest⟩ := sent
    cases hmap
    obtain ⟨_, _, _, rfl⟩ := SemiOutbox.sendSection_eq_ok hsent
    refine ⟨h.next, h.assigned, ?_, ?_⟩
    · intro b hb
      cases hb
    · intro hne
      exact absurd rfl hne

end Ready

/-! ## Every run goes on to the end -/

structure Underway (s : State W) : Prop where
  invariant : Invariant s
  closing : s.Closing
  ready : ∀ w, Ready w (s.worker w).outbox
  between : ∀ m ∈ s.network.tasks, m.destination ≠ W.center

variable {s t : State W}

theorem ready_setWorker (h : ∀ x, Ready x (s.worker x).outbox) {w : WorkerRank W}
    {v : Worker (SemiOutbox (WorkerRank W))} (hv : Ready w v.outbox) (x : WorkerRank W) :
    Ready x ((s.setWorker w v).worker x).outbox := by
  obtain rfl | hx := eq_or_ne x w
  · simpa [SchedulerState.setWorker] using hv
  · simpa [SchedulerState.setWorker, Function.update_of_ne hx] using h x

theorem ready_step (h : ∀ x, Ready x (s.worker x).outbox) {e : Event W} (hfits : Fits s e)
    (ht : step e s = .moved t) : ∀ x, Ready x (t.worker x).outbox := by
  cases e with
  | receiveNextProcess w ranks =>
    obtain ⟨_, rfl⟩ := SchedulerState.updateOutbox_moved ht
    exact ready_setWorker h ((h w).receiveNextProcess hfits)
  | processMessage w source bundle =>
    obtain ⟨_, _, rfl⟩ := SchedulerState.processMessage_moved ht
    exact ready_setWorker h (h w)
  | poll w ranks =>
    obtain ⟨_, rfl⟩ := SchedulerState.updateOutbox_moved ht
    exact ready_setWorker h ((h w).pollSection hfits)
  | push w packet functionId =>
    obtain ⟨_, hopen, outbox, hpush, rfl⟩ := SchedulerState.push_moved ht
    exact ready_setWorker h ((h w).forcePush hopen hfits hpush)
  | send w =>
    obtain ⟨_, destination, bundle, outbox, hsend, rfl⟩ := SchedulerState.send_moved ht
    exact ready_setWorker h ((h w).sendSection hsend)
  | leaveFunnel w =>
    obtain ⟨_, _, rfl⟩ := SchedulerState.leaveFunnel_moved ht
    exact ready_setWorker h (h w)
  | receiveAck w source =>
    obtain ⟨_, _, network, _, rfl⟩ := SchedulerState.receiveAck_moved ht
    exact h
  | processTermination w =>
    obtain ⟨_, _, rfl⟩ := SchedulerState.processTermination_moved ht
    exact ready_setWorker h (h w)
  | sendFinalSolution w report =>
    obtain ⟨_, _, rfl⟩ := SchedulerState.sendFinalSolution_moved ht
    exact ready_setWorker h (h w)
  | centerState w tag =>
    obtain ⟨_, _, rfl⟩ := SchedulerState.consumeIntFlag_moved ht
    exact h
  | centerAck source =>
    obtain ⟨u, hu, rfl⟩ := Transition.Outcome.map_eq_moved.mp ht
    obtain ⟨_, _, network, _, rfl⟩ := SchedulerState.centerAck_moved hu
    split
    · exact h
    · exact h
  | centerBarrier =>
    obtain ⟨_, _, rfl⟩ := SchedulerState.centerBarrier_moved ht
    exact h
  | receiveSolutionFrom w tag =>
    obtain ⟨_, ⟨_, _, _, rfl⟩ | ⟨_, _, _, rfl⟩⟩ := SchedulerState.receiveSolutionFrom_moved ht
    · exact h
    · exact h

theorem closing_step (h : s.Closing) (hsound : s.Sound) {e : Event W}
    (ht : step e s = .moved t) : t.Closing := by
  cases e with
  | receiveNextProcess w ranks => exact h.updateOutbox ht
  | processMessage w source bundle => exact h.processMessage ht
  | poll w ranks => exact h.updateOutbox ht
  | push w packet functionId => exact h.push ht
  | send w => exact h.send ht
  | leaveFunnel w => exact h.leaveFunnel hsound ht
  | receiveAck w source => exact h.receiveAck ht
  | processTermination w => exact h.processTermination hsound ht
  | sendFinalSolution w report => exact h.sendFinalSolution ht
  | centerState w tag => exact h.consumeIntFlag ht
  | centerAck source =>
    obtain ⟨u, hu, rfl⟩ := Transition.Outcome.map_eq_moved.mp ht
    have hclosing := h.centerAck hu
    split
    · exact hclosing.notifyTermination (SchedulerState.work_centerAck hu).2
    · exact hclosing
  | centerBarrier => exact h.centerBarrier ht
  | receiveSolutionFrom w tag => exact h.receiveSolutionFrom ht

theorem sendSection_ne_center {w : WorkerRank W} {o o' : SemiOutbox (WorkerRank W)} {r : Rank W}
    {bundle : TaskBundle} (h : sendSection w o = some (.ok (r, bundle, o'))) : r ≠ W.center := by
  obtain ⟨sent, _, hmap⟩ := Option.map_eq_some_iff.mp h
  cases sent with
  | error e => cases hmap
  | ok sent =>
    obtain ⟨destination, b, rest⟩ := sent
    cases hmap
    exact destination.property

theorem sends_ne_center {e : Event W} {m : TaskMessage W} (hm : m ∈ sends e s) :
    m.destination ≠ W.center := by
  cases e with
  | send w =>
    have hm : m ∈ taskFunneling w (sendSection w (s.worker w).outbox) := hm
    cases hsend : sendSection w (s.worker w).outbox with
    | none =>
      rw [hsend] at hm
      cases hm
    | some sent =>
      rw [hsend] at hm
      cases sent with
      | error e => cases hm
      | ok sent =>
        obtain rfl := List.mem_singleton.mp hm
        exact sendSection_ne_center hsend
  | receiveNextProcess | processMessage | poll | push | leaveFunnel | receiveAck
  | processTermination | sendFinalSolution | centerState | centerAck | centerBarrier
  | receiveSolutionFrom => cases hm

namespace Underway

theorem sendSeed (seed : TaskBundle) : Underway (sendSeed seed : State W) where
  invariant := invariant_sendSeed seed
  closing := SchedulerState.closing_sendSeed _ seed
  ready := Ready.initial
  between m hm := by
    obtain rfl := Multiset.mem_singleton.mp hm
    exact W.first_ne_center

theorem step (h : Underway s) {e : Event W} (hfits : Fits s e)
    (ht : SemiCentralized.step e s = .moved t) : Underway t where
  invariant := h.invariant.step e ht
  closing := closing_step h.closing h.invariant.sound ht
  ready := ready_step h.ready hfits ht
  between m hm := by
    obtain ⟨rest, hbefore, hafter⟩ := carries ht
    rw [hafter] at hm
    obtain hm | hm := Multiset.mem_add.mp hm
    · exact sends_ne_center hm
    · apply h.between m
      rw [hbefore]
      exact Multiset.mem_add.mpr (Or.inr hm)

theorem of_reachable (h : (machine W).ReachableWhere Fits s) : Underway s :=
  h.invariant (fun _ ⟨seed, hs⟩ => hs ▸ sendSeed seed) (fun _ _ _ _ hs hfits ht => hs.step hfits ht)

theorem send_goesOn (h : Underway s) {w : WorkerRank W} (hphase : (s.worker w).phase = .executing)
    (hqueue : (s.outgoing w).tasksBundleQueue ≠ []) : ∃ t, send w s = .moved t := by
  obtain ⟨bundle, hbundle⟩ : ∃ bundle, (s.worker w).outbox.tasksBundleQueue = [bundle] := by
    have hconsistent : (s.worker w).outbox.tasksBundleQueue.length =
        (s.worker w).outbox.transmitting.toNat := h.invariant.sound.outbox w
    have hpos := List.length_pos_iff.mpr hqueue
    have hle := Bool.toNat_le (s.worker w).outbox.transmitting
    apply List.length_eq_one_iff.mp
    change 0 < (s.worker w).outbox.tasksBundleQueue.length at hpos
    omega
  obtain ⟨r, hr, hne⟩ := (h.ready w).destination hqueue
  have hfits := (h.ready w).fits bundle (hbundle ▸ List.mem_singleton_self bundle)
  have hsection : ∃ rest, sendSection w (s.worker w).outbox = some (.ok (r.val, bundle, rest)) := by
    simp [sendSection, SemiOutbox.sendSection, hbundle, SemiOutbox.sendTask, hr, hne,
      Nat.not_lt.mpr hfits, Outgoing.endTransmission, Except.map]
  obtain ⟨rest, hsection⟩ := hsection
  rw [send, SchedulerState.send, if_pos hphase, hsection]
  exact ⟨_, rfl⟩

end Underway

/-- The steps that are not supplied from outside. -/
def internal : Event W → Bool
  | .receiveNextProcess _ _ | .poll _ _ | .push _ _ _ => false
  | _ => true

def gain : Event W → ℕ
  | .push _ _ _ => PUSHED_TASK_WORK
  | _ => 0

/-- All solutions are in, and nothing of the computation is left. -/
structure Ended (s : State W) : Prop where
  quiet : s.Quiet
  finished : s.Finished

theorem step_work {e : Event W} (ht : step e s = .moved t) :
    (internal e).toNat + t.work ≤ s.work + gain e := by
  have hlt : ∀ {n m : ℕ}, n < m → Bool.toNat true + n ≤ m + 0 := by
    intro n m hnm
    rw [Bool.toNat_true]
    omega
  have heq : ∀ {n m k : ℕ}, n = m + k → Bool.toNat false + n ≤ m + k := by
    intro n m k hnm
    rw [Bool.toNat_false]
    omega
  cases e with
  | receiveNextProcess w ranks =>
    exact heq (SchedulerState.work_updateOutbox (f := (·.receiveNextProcess ranks))
      (fun _ => rfl) ht)
  | processMessage w source bundle => exact hlt (SchedulerState.work_processMessage ht)
  | poll w ranks =>
    exact heq (SchedulerState.work_updateOutbox (fun o => o.pollSection_toOutgoing ranks) ht)
  | push w packet functionId =>
    refine heq (SchedulerState.work_push ?_ ht)
    intro o o' hpush
    obtain ⟨_, _, hqueue, rfl⟩ := SemiOutbox.forcePush_eq_ok hpush
    exact ⟨hqueue, rfl⟩
  | send w =>
    refine hlt (SchedulerState.work_send ?_ ht)
    intro o destination bundle o' hsend
    refine ⟨?_, sendSection_initial o destination bundle o' hsend⟩
    obtain ⟨sent, hsent, hmap⟩ := Option.map_eq_some_iff.mp hsend
    cases sent with
    | error e => cases hmap
    | ok sent =>
      obtain ⟨r, b, rest⟩ := sent
      obtain ⟨hqueue, _⟩ := SemiOutbox.sendSection_eq_ok hsent
      exact congrArg List.length hqueue
  | leaveFunnel w => exact hlt (SchedulerState.work_leaveFunnel ht)
  | receiveAck w source => exact hlt (SchedulerState.work_receiveAck ht)
  | processTermination w => exact hlt (SchedulerState.work_processTermination ht)
  | sendFinalSolution w report => exact hlt (SchedulerState.work_sendFinalSolution ht)
  | centerState w tag => exact hlt (SchedulerState.work_consumeIntFlag ht)
  | centerAck source =>
    obtain ⟨u, hu, rfl⟩ := Transition.Outcome.map_eq_moved.mp ht
    obtain ⟨hwork, hphase⟩ := SchedulerState.work_centerAck hu
    apply hlt
    split
    · exact (SchedulerState.work_notifyTermination hphase).trans hwork
    · exact hwork
  | centerBarrier => exact hlt (SchedulerState.work_centerBarrier ht)
  | receiveSolutionFrom w tag => exact hlt (SchedulerState.work_receiveSolutionFrom ht)

namespace Underway

/-- While the center is in its loop, a message in flight or a task at a worker moves on. -/
theorem working_goesOn (h : Underway s) (hcenter : s.centerPhase = .receiving) :
    ∃ e t, internal e = true ∧ SemiCentralized.step e s = .moved t := by
  have hphases := SchedulerState.receiving_or_executing h.closing hcenter
  by_cases hexecuting : ∃ w, (s.worker w).phase = .executing
  · obtain ⟨w, hw⟩ := hexecuting
    by_cases hqueue : (s.outgoing w).tasksBundleQueue = []
    · obtain ⟨t, ht⟩ := SchedulerState.leaveFunnel_goesOn hw hqueue
      exact ⟨.leaveFunnel w, t, rfl, ht⟩
    · obtain ⟨t, ht⟩ := h.send_goesOn hw hqueue
      exact ⟨.send w, t, rfl, ht⟩
  · have hreceiving : ∀ w, (s.worker w).phase = .receiving := by
      intro w
      exact (hphases w).resolve_right fun hw => hexecuting ⟨w, hw⟩
    obtain htasks | ⟨m, hm⟩ := s.network.tasks.empty_or_exists_mem
    · obtain hacks | ⟨a, ha⟩ := s.network.acks.empty_or_exists_mem
      · have hexit := h.invariant.exited htasks hacks fun w hw => hexecuting ⟨w, hw⟩
        exact absurd hcenter hexit.2
      · obtain ⟨source, destination⟩ := a
        by_cases hdestination : destination = W.center
        · subst hdestination
          obtain ⟨t, ht⟩ := SchedulerState.centerAck_goesOn h.invariant.sound hcenter ha
          exact ⟨.centerAck source, if t.deficit = 0 then t.notifyTermination else t, rfl,
            Transition.Outcome.map_eq_moved.mpr ⟨t, ht, rfl⟩⟩
        · obtain ⟨t, ht⟩ := SchedulerState.receiveAck_goesOn (w := ⟨destination, hdestination⟩)
            h.invariant.sound (hreceiving _) ha
          exact ⟨.receiveAck ⟨destination, hdestination⟩ source, t, rfl, ht⟩
    · obtain ⟨source, destination, bundle⟩ := m
      have hdestination : destination ≠ W.center := h.between _ hm
      obtain ⟨t, ht⟩ := SchedulerState.processMessage_goesOn (w := ⟨destination, hdestination⟩)
        (hreceiving _) hm
      exact ⟨.processMessage ⟨destination, hdestination⟩ source bundle, t, rfl, ht⟩

theorem goesOn (h : Underway s) :
    Ended s ∨ ∃ e t, internal e = true ∧ SemiCentralized.step e s = .moved t := by
  by_cases hcenter : s.centerPhase = .receiving
  · exact Or.inr (h.working_goesOn hcenter)
  · obtain hfinished | ⟨w, t, ht⟩ | ⟨t, ht⟩ | ⟨w, t, ht⟩ | ⟨w, report, t, ht⟩ :=
      SchedulerState.closing_goesOn h.invariant.sound h.closing hcenter
    · exact Or.inl ⟨h.invariant.sound.quiet hcenter, hfinished⟩
    · exact Or.inr ⟨.processTermination w, t, rfl, ht⟩
    · exact Or.inr ⟨.centerBarrier, t, rfl, ht⟩
    · exact Or.inr ⟨.sendFinalSolution w none, t, rfl, ht⟩
    · exact Or.inr ⟨.receiveSolutionFrom w (.report report), t, rfl, ht⟩

end Underway

/-- Steps of the processes end with all solutions collected, whatever their order; only a push
adds to what they can still do. -/
theorem semiCentralized_completes (h : (machine W).ReachableWhere Fits s) :
    (machine W).Completes internal gain SchedulerState.work Ended s ∧
      ∃ es t, (∀ e ∈ es, internal e = true) ∧ (machine W).run es s = some t ∧ Ended t := by
  have hcompletes : (machine W).Completes internal gain SchedulerState.work Ended s := by
    apply Transition.Machine.completes_of (I := Underway)
    · intro s e t ht
      exact step_work ht
    · intro s e t hs he ht
      refine hs.step ?_ ht
      cases e with
      | receiveNextProcess | poll | push => cases he
      | processMessage | send | leaveFunnel | receiveAck | processTermination
      | sendFinalSolution | centerState | centerAck | centerBarrier
      | receiveSolutionFrom => trivial
    · intro s hs
      exact hs.goesOn
    · exact Underway.of_reachable h
  refine ⟨hcompletes, hcompletes.exists_final ?_⟩
  intro e he
  cases e with
  | push => cases he
  | receiveNextProcess | poll | processMessage | send | leaveFunnel | receiveAck
  | processTermination | sendFinalSolution | centerState | centerAck | centerBarrier
  | receiveSolutionFrom => rfl

theorem semiCentralized_completes_passedOn : ∃ s : State .four,
    (machine .four).run (passedOn.take 9) (sendSeed ⟨[7], 3⟩) = some s ∧
      s.network.tasks.card = 1 ∧
      ∃ es t, (∀ e ∈ es, internal e = true) ∧ (machine .four).run es s = some t ∧ Ended t := by
  have hrun : ∃ s : State .four,
      (machine .four).run (passedOn.take 9) (sendSeed ⟨[7], 3⟩) = some s ∧
        s.network.tasks.card = 1 := ⟨_, rfl, rfl⟩
  obtain ⟨s, hs, htasks⟩ := hrun
  have hstart : (machine .four).ReachableWhere Fits (sendSeed ⟨[7], 3⟩) := .start ⟨_, rfl⟩
  exact ⟨s, hs, htasks, (semiCentralized_completes (hstart.run hs (by decide))).2⟩

end SemiCentralized

end Gempba
