import Gempba.Schedulers.Protocol

/-!
# The use of the assigned ranks

One worker as a machine whose steps are the critical sections: the push of a
pool thread, the send section and the poll section of the funnel. The logs of
the destinations served and of the ranks assigned are bookkeeping of the
model. The cached `m_next_process` is only refreshed in the poll section, so
a push in the gap after a send section can reuse it.
-/

namespace Gempba.NextProcess

set_option autoImplicit false

variable {W : World}

structure State (W : World) where
  outbox : SemiOutbox (WorkerRank W)
  sent : List (WorkerRank W)
  assigned : List (WorkerRank W)

inductive Event (W : World) where
  | push (packet : TaskPacket) (functionId : ℤ)
  | send
  | poll (ranks : Option (List (WorkerRank W)))

abbrev Step (W : World) := Transition.Outcome Fault (State W)

def State.pending (s : State W) : List (WorkerRank W) := pendingRanks s.outbox.nextProcesses

/-- The destination of the task that waits to be sent. -/
def State.queued (s : State W) : List (WorkerRank W) :=
  if s.outbox.tasksBundleQueue = [] then [] else s.outbox.destinationRank.toList

def push (packet : TaskPacket) (functionId : ℤ) (s : State W) : Step W :=
  if s.outbox.tryOpenTransmissionChannel then
    match s.outbox.forcePush packet functionId with
    | .ok outbox => .moved { s with outbox }
    | .error e => .raised e
  else .blocked

def send (me : WorkerRank W) (s : State W) : Step W :=
  match s.outbox.sendSection me with
  | some (.ok (destination, _, outbox)) =>
    .moved { s with outbox, sent := s.sent ++ [destination] }
  | some (.error e) => .raised e
  | none => .blocked

/-- A message only arrives when the list is empty, and fits into the vector. -/
def poll (ranks : Option (List (WorkerRank W))) (s : State W) : Step W :=
  match ranks with
  | some rs =>
    if s.pending = [] ∧ rs.length ≤ W.size then
      .moved { s with outbox := s.outbox.pollSection (some rs), assigned := s.assigned ++ rs }
    else .blocked
  | none => .moved { s with outbox := s.outbox.pollSection none }

def step (me : WorkerRank W) : Event W → State W → Step W
  | .push packet functionId => push packet functionId
  | .send => send me
  | .poll ranks => poll ranks

def start (W : World) : State W := ⟨.initial W.size, [], []⟩

def machine (me : WorkerRank W) : Transition.Machine (State W) (Event W) Fault where
  initial s := s = start W
  step := step me

/-- What was sent, what is queued and what is pending are the assigned ranks, in order. -/
def InOrder (s : State W) : Prop := s.sent ++ s.queued ++ s.pending = s.assigned

instance (s : State W) : Decidable (InOrder s) := by
  unfold InOrder
  infer_instance

/-- A push uses the first cell of the vector. -/
def Fresh (s : State W) : Event W → Prop
  | .push _ _ => s.outbox.nextProcess = s.outbox.nextProcesses.head?.join
  | _ => True

instance (s : State W) (e : Event W) : Decidable (Fresh s e) := by
  cases e <;> unfold Fresh <;> infer_instance

def Packed (s : State W) : Prop :=
  ∃ k, s.outbox.nextProcesses = packed s.pending k ∧ s.pending.length + k = W.size

variable {s t : State W} {me : WorkerRank W}

theorem push_moved (hs : Packed s) {packet : TaskPacket} {functionId : ℤ}
    (ht : push packet functionId s = .moved t) :
    ∃ x, s.outbox.nextProcess = some x ∧ s.queued = [] ∧ t.queued = [x] ∧
      t.pending = s.pending.tail ∧ t.sent = s.sent ∧ t.assigned = s.assigned ∧ Packed t := by
  simp only [push] at ht
  split at ht
  · rename_i hopen
    split at ht
    · rename_i o hpush
      cases ht
      obtain ⟨cells, hshift, hqueue, rfl⟩ := SemiOutbox.forcePush_eq_ok hpush
      obtain ⟨x, hx⟩ : ∃ x, s.outbox.nextProcess = some x := by
        simp only [SemiOutbox.tryOpenTransmissionChannel, Bool.and_eq_true] at hopen
        exact Option.isSome_iff_exists.mp hopen.2
      obtain ⟨k, hvector, hk⟩ := hs
      rw [hvector, shiftLeft_packed (by rw [hk]; exact W.two_le)] at hshift
      obtain rfl := Option.some.inj hshift
      refine ⟨x, hx, by simp [State.queued, hqueue], by simp [State.queued, hx],
        by simp [State.pending], rfl, rfl, _, by simp [State.pending]; rfl, ?_⟩
      simp only [State.pending, pendingRanks_packed, List.length_tail] at hk ⊢
      omega
    · cases ht
  · cases ht

theorem send_moved (ht : send me s = .moved t) :
    ∃ destination, s.queued = [destination] ∧ t.queued = [] ∧ t.pending = s.pending ∧
      t.sent = s.sent ++ [destination] ∧ t.assigned = s.assigned ∧
        t.outbox.nextProcesses = s.outbox.nextProcesses := by
  simp only [send] at ht
  split at ht
  · rename_i destination _ _ hsend
    cases ht
    obtain ⟨hqueue, hdest, _, rfl⟩ := SemiOutbox.sendSection_eq_ok hsend
    exact ⟨destination, by simp [State.queued, hqueue, hdest], by simp [State.queued], rfl, rfl,
      rfl, rfl⟩
  · cases ht
  · cases ht

/-- A poll adds the ranks of a message, if one has arrived, to an empty list. -/
theorem poll_moved (hs : Packed s) {ranks : Option (List (WorkerRank W))}
    (ht : poll ranks s = .moved t) :
    t.queued = s.queued ∧ t.sent = s.sent ∧ Packed t ∧
      ∃ new, t.pending = s.pending ++ new ∧ t.assigned = s.assigned ++ new := by
  simp only [poll] at ht
  split at ht
  · rename_i rs
    split at ht
    · rename_i hguard
      obtain ⟨hempty, hlength⟩ := hguard
      cases ht
      obtain ⟨k, hvector, hk⟩ := hs
      rw [hempty] at hvector hk
      have hpacked := SemiOutbox.receiveNextProcess_packed hvector rs
      have hpending : pendingRanks (s.outbox.receiveNextProcess rs).nextProcesses = rs := by
        rw [hpacked, pendingRanks_packed]
      simp only [List.length_nil] at hk
      refine ⟨rfl, rfl, ⟨k - rs.length, ?_, ?_⟩, rs, ?_, rfl⟩
      · exact hpacked.trans (congrArg (packed · _) hpending.symm)
      · exact (congrArg (List.length · + _) hpending).trans (by omega)
      · rw [hempty]
        exact hpending
    · cases ht
  · cases ht
    exact ⟨rfl, rfl, hs, [], by simp [State.pending, SemiOutbox.pollSection,
      SemiOutbox.updateNextProcess], by simp⟩

theorem packed_of_reachable (h : (machine me).Reachable s) : Packed s := by
  refine h.invariant (I := Packed) ?_ fun s e t _ hs _ ht => ?_
  · rintro s rfl
    exact ⟨W.size, by simp [start, State.pending, SemiOutbox.initial, pendingRanks, packed],
      by simp [start, State.pending, SemiOutbox.initial, pendingRanks]⟩
  · cases e with
    | push packet functionId =>
      obtain ⟨_, _, _, _, _, _, _, hpacked⟩ := push_moved hs ht
      exact hpacked
    | send =>
      obtain ⟨_, _, _, hpending, _, _, hcells⟩ := send_moved ht
      obtain ⟨k, hvector, hk⟩ := hs
      exact ⟨k, by rw [hcells, hpending, hvector], by rw [hpending, hk]⟩
    | poll ranks => exact (poll_moved hs ht).2.2.1

theorem inOrder_push (hs : Packed s) (ho : InOrder s) {packet : TaskPacket} {functionId : ℤ}
    (ht : push packet functionId s = .moved t) :
    InOrder t ↔ Fresh s (.push packet functionId) := by
  obtain ⟨x, hx, hqueued, hqueued', hpending, hsent, hassigned, _⟩ := push_moved hs ht
  obtain ⟨k, hvector, _⟩ := hs
  unfold InOrder at ho ⊢
  rw [Fresh, hx, hvector, head?_join_packed, hqueued', hpending, hsent, hassigned, ← ho, hqueued]
  cases s.pending with
  | nil => simp
  | cons y ys => simp

theorem InOrder.step (ho : InOrder s) (hs : Packed s) {e : Event W} (hfresh : Fresh s e)
    (ht : step me e s = .moved t) : InOrder t := by
  cases e with
  | push packet functionId => exact (inOrder_push hs ho ht).mpr hfresh
  | send =>
    obtain ⟨destination, hqueued, hqueued', hpending, hsent, hassigned, _⟩ := send_moved ht
    unfold InOrder at ho ⊢
    rw [hqueued', hpending, hsent, hassigned, ← ho, hqueued, List.append_nil]
  | poll ranks =>
    obtain ⟨hqueued, hsent, _, new, hpending, hassigned⟩ := poll_moved hs ht
    unfold InOrder at ho ⊢
    rw [hqueued, hsent, hpending, hassigned, ← ho]
    simp only [List.append_assoc]

/-- Runs whose pushes are fresh serve the assigned ranks in order, each once; the first push
that is not breaks the order. -/
theorem inOrder_of_fresh (me : WorkerRank W) :
    (∀ s, (machine me).ReachableWhere Fresh s → InOrder s) ∧
      ∀ s t packet functionId, (machine me).Reachable s → InOrder s →
        (machine me).step (.push packet functionId) s = .moved t →
          (InOrder t ↔ Fresh s (.push packet functionId)) := by
  refine ⟨fun s h => ?_, fun s t packet functionId h ho ht =>
    inOrder_push (packed_of_reachable h) ho ht⟩
  refine h.invariant (I := InOrder) ?_ fun s e t hs ho hfresh ht =>
    ho.step (packed_of_reachable hs.reachable) hfresh ht
  rintro s rfl
  simp [InOrder, start, State.queued, State.pending, SemiOutbox.initial, Outgoing.initial,
    pendingRanks]

/-! Rank 1 of four ranks is assigned 2 and 3. -/

def four : World := ⟨4, by decide⟩

def second : WorkerRank four := ⟨⟨2, by decide⟩, by decide⟩

def third : WorkerRank four := ⟨⟨3, by decide⟩, by decide⟩

/-- The worker polls between its two tasks. -/
def polled : List (Event four) :=
  [.poll (some [second, third]), .push [7] 1, .send, .poll none,
    .push [8] 1, .send]

/-- The second push comes before the poll. -/
def unpolled : List (Event four) :=
  [.poll (some [second, third]), .push [7] 1, .send, .push [8] 1, .send]

theorem polled_runs : ((machine four.firstWorker).run polled (start four)).isSome = true := by
  decide

theorem unpolled_runs : ((machine four.firstWorker).run unpolled (start four)).isSome = true := by
  decide

theorem inOrder_polled :
    InOrder (((machine four.firstWorker).run polled (start four)).get polled_runs) :=
  (inOrder_of_fresh four.firstWorker).1 _
    (Transition.Machine.ReachableWhere.run (.start rfl) (Option.some_get _).symm (by decide))

theorem destination_repeated :
    ∃ s, (machine four.firstWorker).Reachable s ∧ ¬ InOrder s ∧
      s.sent = [second, second] ∧
      s.assigned = [second, third] := by
  refine ⟨((machine four.firstWorker).run unpolled (start four)).get unpolled_runs, ?_, by decide,
    by decide, by decide⟩
  have hstart : (machine four.firstWorker).Reachable (start four) := .start rfl
  exact hstart.run (Option.some_get _).symm

end Gempba.NextProcess
