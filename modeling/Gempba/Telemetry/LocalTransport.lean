import Gempba.Library.Completion
import Gempba.Library.LatestSlots
import Gempba.Telemetry.Frames
import Gempba.Telemetry.Hub

/-!
# The transport of a single process

Frames are left in a slot for each worker and each node, control messages in one
queue. A poll goes over all slots, first the workers', and hands each frame to
its sink outside of the slot's lock, so that frames are published meanwhile.
-/

namespace Gempba.Telemetry

set_option autoImplicit false

open Transition Latest

inductive LocalPoint where
  | idle
  | workers (p : Point WorkerFrame)
  | nodes (p : Point NodeFrame)

/-- The transport, with what was sent and received of the control messages. -/
structure LocalTransport where
  workerSlots : Slots WorkerFrame
  nodeSlots : Slots NodeFrame
  controlQueue : List (UInt32 × ControlMsg)
  point : LocalPoint
  sent : List (UInt32 × ControlMsg)
  received : List ControlMsg

inductive LocalEvent where
  | publishWorker (f : WorkerFrame)
  | publishNode (f : NodeFrame)
  | poll
  | worker
  | node
  | sendControl (dstRank : UInt32) (m : ControlMsg)
  | tryRecvControl

namespace LocalTransport

abbrev Step := Outcome Empty LocalTransport

/-- A frame of a worker without a slot is dropped. -/
def publishWorker (slots : ℕ) (f : WorkerFrame) (s : LocalTransport) : LocalTransport :=
  if slots ≤ f.workerId.toNat then s
  else { s with workerSlots := s.workerSlots.publish f.workerId.toNat f }

def publishNode (slots : ℕ) (f : NodeFrame) (s : LocalTransport) : LocalTransport :=
  if slots ≤ f.sentinelWorkerId.toNat then s
  else { s with nodeSlots := s.nodeSlots.publish f.sentinelWorkerId.toNat f }

def poll (s : LocalTransport) : Step :=
  match s.point with
  | .idle => .moved { s with
      workerSlots := s.workerSlots.setOut
      nodeSlots := s.nodeSlots.setOut
      point := .workers (.scanning 0) }
  | .workers _ | .nodes _ => .blocked

/-- The next step of the first loop. -/
def worker (slots : ℕ) (s : LocalTransport) : Step :=
  match s.point with
  | .workers p =>
    match s.workerSlots.next slots p with
    | some (workerSlots, p) => .moved { s with workerSlots, point := .workers p }
    | none => .moved { s with point := .nodes (.scanning 0) }
  | .idle | .nodes _ => .blocked

/-- The next step of the second loop. -/
def node (slots : ℕ) (s : LocalTransport) : Step :=
  match s.point with
  | .nodes p =>
    match s.nodeSlots.next slots p with
    | some (nodeSlots, p) => .moved { s with nodeSlots, point := .nodes p }
    | none => .moved { s with point := .idle }
  | .idle | .workers _ => .blocked

def sendControl (dstRank : UInt32) (m : ControlMsg) (s : LocalTransport) : LocalTransport :=
  { s with controlQueue := s.controlQueue ++ [(dstRank, m)], sent := s.sent ++ [(dstRank, m)] }

/-- The rank that a message was meant for is not looked at. -/
def tryRecvControl (s : LocalTransport) : LocalTransport :=
  match s.controlQueue with
  | [] => s
  | m :: rest => { s with controlQueue := rest, received := s.received ++ [m.2] }

def step (slots : ℕ) : LocalEvent → LocalTransport → Step
  | .publishWorker f, s => .moved (s.publishWorker slots f)
  | .publishNode f, s => .moved (s.publishNode slots f)
  | .poll, s => s.poll
  | .worker, s => s.worker slots
  | .node, s => s.node slots
  | .sendControl dstRank m, s => .moved (s.sendControl dstRank m)
  | .tryRecvControl, s => .moved s.tryRecvControl

/-- What the slots hold before anything is published is never read. -/
def start (f : WorkerFrame) (g : NodeFrame) : LocalTransport where
  workerSlots _ := .blank f
  nodeSlots _ := .blank g
  controlQueue := []
  point := .idle
  sent := []
  received := []

end LocalTransport

/-- The source has `MAX_WORKERS` slots of either kind. -/
def localMachine (slots : ℕ) : Machine LocalTransport LocalEvent Empty where
  initial s := ∃ f g, s = .start f g
  step := LocalTransport.step slots

/-! ## What is handed over -/

/-- A slot holds frames of its own sender, and there is one for the first `n` senders. -/
def Owned {α : Type} (n : ℕ) (sender : α → ℕ) (xs : Slots α) : Prop :=
  ∀ i, ∀ f ∈ (xs i).published, sender f = i ∧ i < n

/-- Frames are handed over in their order, each at most once; and when no poll is under way, the
last frame handed over of each sender is the one that was the last published at some moment since
the last poll set out. -/
structure Delivers {α : Type} (n : ℕ) (sender : α → ℕ) (idle : Prop) (xs : Slots α) : Prop where
  ordered : ∀ i, (xs i).handed.Sublist (xs i).published
  sender : ∀ i, ∀ f ∈ (xs i).handed, sender f = i ∧ i < n
  latest : idle → ∀ i < n, ∃ k, (xs i).since ≤ k ∧ k ≤ (xs i).published.length ∧
    (xs i).handed.getLast? = ((xs i).published.take k).getLast?

section Slots

variable {α : Type} {n : ℕ} {sender : α → ℕ} {xs : Slots α} {p : Point α}

theorem Owned.update (h : Owned n sender xs) (i : ℕ) (f : Slot α → Slot α)
    (hf : (f (xs i)).published = (xs i).published) : Owned n sender (xs.update i f) := by
  intro j
  obtain rfl | hj := eq_or_ne j i
  · rw [Slots.update, Function.update_self, hf]
    exact h j
  · rw [Slots.update, Function.update_of_ne hj]
    exact h j

theorem Owned.publish (h : Owned n sender xs) {f : α} (hf : sender f < n) :
    Owned n sender (xs.publish (sender f) f) := by
  intro j g hg
  obtain rfl | hj := eq_or_ne j (sender f)
  · rw [Slots.publish, Slots.update, Function.update_self] at hg
    obtain hg | hg := List.mem_append.mp hg
    · exact h _ g hg
    · rw [List.mem_singleton.mp hg]
      exact ⟨rfl, hf⟩
  · rw [Slots.publish, Slots.update, Function.update_of_ne hj] at hg
    exact h j g hg

theorem Owned.next (h : Owned n sender xs) {next : Slots α × Point α}
    (hnext : xs.next n p = some next) : Owned n sender next.1 := by
  obtain ⟨i, _, rfl, rfl⟩ | ⟨i, a, rfl, rfl⟩ := Slots.next_cases hnext
  · exact h.update i _ rfl
  · exact h.update i _ rfl

theorem delivers_of_follows (hfollows : xs.Follows p) (howned : Owned n sender xs) {idle : Prop}
    (hidle : idle → p = .scanning n) : Delivers n sender idle xs := by
  constructor
  · intro i
    exact (hfollows.slot i).sublist
  · intro i f hf
    exact howned i f ((hfollows.slot i).sublist.mem hf)
  · intro h i hi
    obtain rfl := hidle h
    have hlatest := (hfollows.slot i).latest
    rw [Point.taken, Option.toList_none, List.append_nil] at hlatest
    exact ⟨_, hfollows.visited i hi, (hfollows.slot i).seen_le, hlatest⟩

end Slots

namespace LocalTransport

/-- The reader of the workers' slots; it rests behind the last slot. -/
def workerPoint (slots : ℕ) : LocalPoint → Point WorkerFrame
  | .workers p => p
  | .idle | .nodes _ => .scanning slots

def nodePoint (slots : ℕ) : LocalPoint → Point NodeFrame
  | .nodes p => p
  | .workers _ => .scanning 0
  | .idle => .scanning slots

structure Sound (slots : ℕ) (s : LocalTransport) : Prop where
  workers : s.workerSlots.Follows (workerPoint slots s.point)
  nodes : s.nodeSlots.Follows (nodePoint slots s.point)
  ownWorkers : Owned slots (·.workerId.toNat) s.workerSlots
  ownNodes : Owned slots (·.sentinelWorkerId.toNat) s.nodeSlots
  workersInside : (workerPoint slots s.point).visited ≤ slots
  nodesInside : (nodePoint slots s.point).visited ≤ slots
  control : s.received ++ s.controlQueue.map Prod.snd = s.sent.map Prod.snd

variable {slots : ℕ} {s t : LocalTransport}

theorem sound_start (f : WorkerFrame) (g : NodeFrame) : (start f g).Sound slots := by
  constructor
  · exact ⟨fun _ => Slot.follows_blank f, fun _ _ => Nat.le_refl 0⟩
  · exact ⟨fun _ => Slot.follows_blank g, fun _ _ => Nat.le_refl 0⟩
  · intro i h hh
    cases hh
  · intro i h hh
    cases hh
  · exact Nat.le_refl slots
  · exact Nat.le_refl slots
  · rfl

theorem Sound.publishWorker (h : s.Sound slots) (f : WorkerFrame) :
    (s.publishWorker slots f).Sound slots := by
  rw [LocalTransport.publishWorker]
  split
  · exact h
  · rename_i hid
    exact ⟨h.workers.publish _ f, h.nodes, h.ownWorkers.publish (Nat.lt_of_not_le hid),
      h.ownNodes, h.workersInside, h.nodesInside, h.control⟩

theorem Sound.publishNode (h : s.Sound slots) (f : NodeFrame) :
    (s.publishNode slots f).Sound slots := by
  rw [LocalTransport.publishNode]
  split
  · exact h
  · rename_i hid
    exact ⟨h.workers, h.nodes.publish _ f, h.ownWorkers,
      h.ownNodes.publish (Nat.lt_of_not_le hid), h.workersInside, h.nodesInside, h.control⟩

theorem Sound.poll (h : s.Sound slots) (hst : s.poll = .moved t) : t.Sound slots := by
  have hworkers := h.workers
  have hnodes := h.nodes
  rw [LocalTransport.poll] at hst
  cases hpoint : s.point with
  | idle =>
    rw [hpoint] at hst hworkers hnodes
    cases hst
    exact ⟨hworkers.setOut, hnodes.setOut, h.ownWorkers, h.ownNodes, Nat.zero_le slots,
      Nat.zero_le slots, h.control⟩
  | workers p =>
    rw [hpoint] at hst
    cases hst
  | nodes p =>
    rw [hpoint] at hst
    cases hst

/-- What a step of the first loop does. -/
theorem worker_moved (hst : s.worker slots = .moved t) : ∃ p, s.point = .workers p ∧
    ((∃ next, s.workerSlots.next slots p = some next ∧
      t = { s with workerSlots := next.1, point := .workers next.2 }) ∨
    ∃ i, p = .scanning i ∧ slots ≤ i ∧ t = { s with point := .nodes (.scanning 0) }) := by
  rw [LocalTransport.worker] at hst
  cases hpoint : s.point with
  | idle =>
    rw [hpoint] at hst
    cases hst
  | nodes p =>
    rw [hpoint] at hst
    cases hst
  | workers p =>
    refine ⟨p, rfl, ?_⟩
    rw [hpoint] at hst
    simp only at hst
    cases hnext : s.workerSlots.next slots p with
    | some next =>
      rw [hnext] at hst
      cases hst
      exact .inl ⟨next, rfl, rfl⟩
    | none =>
      rw [hnext] at hst
      cases hst
      obtain ⟨i, hi, hle⟩ := Slots.next_eq_none hnext
      exact .inr ⟨i, hi, hle, rfl⟩

theorem node_moved (hst : s.node slots = .moved t) : ∃ p, s.point = .nodes p ∧
    ((∃ next, s.nodeSlots.next slots p = some next ∧
      t = { s with nodeSlots := next.1, point := .nodes next.2 }) ∨
    ∃ i, p = .scanning i ∧ slots ≤ i ∧ t = { s with point := .idle }) := by
  rw [LocalTransport.node] at hst
  cases hpoint : s.point with
  | idle =>
    rw [hpoint] at hst
    cases hst
  | workers p =>
    rw [hpoint] at hst
    cases hst
  | nodes p =>
    refine ⟨p, rfl, ?_⟩
    rw [hpoint] at hst
    simp only at hst
    cases hnext : s.nodeSlots.next slots p with
    | some next =>
      rw [hnext] at hst
      cases hst
      exact .inl ⟨next, rfl, rfl⟩
    | none =>
      rw [hnext] at hst
      cases hst
      obtain ⟨i, hi, hle⟩ := Slots.next_eq_none hnext
      exact .inr ⟨i, hi, hle, rfl⟩

theorem Sound.worker (h : s.Sound slots) (hst : s.worker slots = .moved t) : t.Sound slots := by
  have hworkers := h.workers
  have hnodes := h.nodes
  have hinside := h.workersInside
  obtain ⟨p, hpoint, ⟨next, hnext, rfl⟩ | ⟨i, rfl, hle, rfl⟩⟩ := worker_moved hst
  · rw [hpoint] at hworkers hnodes hinside
    exact ⟨hworkers.next hnext, hnodes, h.ownWorkers.next hnext, h.ownNodes,
      Slots.visited_next hnext hinside, Nat.zero_le slots, h.control⟩
  · rw [hpoint] at hworkers hnodes hinside
    obtain rfl : i = slots := Nat.le_antisymm hinside hle
    exact ⟨hworkers, hnodes, h.ownWorkers, h.ownNodes, Nat.le_refl _, Nat.zero_le _, h.control⟩

theorem Sound.node (h : s.Sound slots) (hst : s.node slots = .moved t) : t.Sound slots := by
  have hworkers := h.workers
  have hnodes := h.nodes
  have hinside := h.nodesInside
  obtain ⟨p, hpoint, ⟨next, hnext, rfl⟩ | ⟨i, rfl, hle, rfl⟩⟩ := node_moved hst
  · rw [hpoint] at hworkers hnodes hinside
    exact ⟨hworkers, hnodes.next hnext, h.ownWorkers, h.ownNodes.next hnext, Nat.le_refl slots,
      Slots.visited_next hnext hinside, h.control⟩
  · rw [hpoint] at hworkers hnodes hinside
    obtain rfl : i = slots := Nat.le_antisymm hinside hle
    exact ⟨hworkers, hnodes, h.ownWorkers, h.ownNodes, Nat.le_refl _, Nat.le_refl _, h.control⟩

theorem Sound.sendControl (h : s.Sound slots) (dstRank : UInt32) (m : ControlMsg) :
    (s.sendControl dstRank m).Sound slots := by
  refine ⟨h.workers, h.nodes, h.ownWorkers, h.ownNodes, h.workersInside, h.nodesInside, ?_⟩
  change s.received ++ (s.controlQueue ++ [(dstRank, m)]).map Prod.snd =
    (s.sent ++ [(dstRank, m)]).map Prod.snd
  rw [List.map_append, List.map_append, ← List.append_assoc, h.control]

theorem Sound.tryRecvControl (h : s.Sound slots) : s.tryRecvControl.Sound slots := by
  have hcontrol := h.control
  rw [LocalTransport.tryRecvControl]
  cases hqueue : s.controlQueue with
  | nil => exact h
  | cons m rest =>
    refine ⟨h.workers, h.nodes, h.ownWorkers, h.ownNodes, h.workersInside, h.nodesInside, ?_⟩
    rw [hqueue, List.map_cons] at hcontrol
    change s.received ++ [m.2] ++ rest.map Prod.snd = s.sent.map Prod.snd
    rw [List.append_assoc]
    exact hcontrol

theorem Sound.step (h : s.Sound slots) {e : LocalEvent} (hst : step slots e s = .moved t) :
    t.Sound slots := by
  cases e with
  | publishWorker f =>
    cases hst
    exact h.publishWorker f
  | publishNode f =>
    cases hst
    exact h.publishNode f
  | poll => exact h.poll hst
  | worker => exact h.worker hst
  | node => exact h.node hst
  | sendControl dstRank m =>
    cases hst
    exact h.sendControl dstRank m
  | tryRecvControl =>
    cases hst
    exact h.tryRecvControl

theorem sound_of_reachable (h : (localMachine slots).Reachable s) : s.Sound slots := by
  refine h.invariant (I := Sound slots) ?_ ?_
  · rintro s ⟨f, g, rfl⟩
    exact sound_start f g
  · intro s e t _ hs _ hst
    exact hs.step hst

/-! ## A poll comes to its end -/

/-- The steps of a poll. -/
def internal : LocalEvent → Bool
  | .worker | .node => true
  | .publishWorker _ | .publishNode _ | .poll | .sendControl _ _ | .tryRecvControl => false

def gain (slots : ℕ) : LocalEvent → ℕ
  | .poll => 4 * slots + 3
  | .worker | .node | .publishWorker _ | .publishNode _ | .sendControl _ _ | .tryRecvControl => 0

def left (slots : ℕ) (s : LocalTransport) : ℕ :=
  match s.point with
  | .idle => 0
  | .workers p => p.left slots + (2 * slots + 2)
  | .nodes p => p.left slots

theorem left_of_point {slots : ℕ} (h : t.point = s.point) : t.left slots = s.left slots := by
  rw [left, left, h]

theorem left_poll (slots : ℕ) (hst : s.poll = .moved t) :
    t.left slots ≤ s.left slots + (4 * slots + 3) := by
  rw [LocalTransport.poll] at hst
  cases hpoint : s.point with
  | idle =>
    rw [hpoint] at hst
    cases hst
    change 2 * (slots - 0) + 1 + (2 * slots + 2) ≤ _
    omega
  | workers p =>
    rw [hpoint] at hst
    cases hst
  | nodes p =>
    rw [hpoint] at hst
    cases hst

theorem left_worker (hst : s.worker slots = .moved t) : t.left slots + 1 ≤ s.left slots := by
  obtain ⟨p, hpoint, ⟨next, hnext, rfl⟩ | ⟨i, rfl, _, rfl⟩⟩ := worker_moved hst
  · have hnext := Slots.left_next hnext
    rw [left.eq_def slots s, hpoint]
    change next.2.left slots + (2 * slots + 2) + 1 ≤ p.left slots + (2 * slots + 2)
    omega
  · rw [left.eq_def slots s, hpoint]
    change 2 * (slots - 0) + 1 + 1 ≤ 2 * (slots - i) + 1 + (2 * slots + 2)
    omega

theorem left_node (hst : s.node slots = .moved t) : t.left slots + 1 ≤ s.left slots := by
  obtain ⟨p, hpoint, ⟨next, hnext, rfl⟩ | ⟨i, rfl, _, rfl⟩⟩ := node_moved hst
  · rw [left.eq_def slots s, hpoint]
    exact Slots.left_next hnext
  · rw [left.eq_def slots s, hpoint]
    change 0 + 1 ≤ 2 * (slots - i) + 1
    omega

theorem left_step {e : LocalEvent} (hst : step slots e s = .moved t) :
    (internal e).toNat + t.left slots ≤ s.left slots + gain slots e := by
  have hsame : t.point = s.point → 0 + t.left slots ≤ s.left slots + 0 := by
    intro hpoint
    rw [left_of_point hpoint]
    omega
  cases e with
  | publishWorker f =>
    cases hst
    apply hsame
    rw [publishWorker]
    split
    · rfl
    · rfl
  | publishNode f =>
    cases hst
    apply hsame
    rw [publishNode]
    split
    · rfl
    · rfl
  | poll =>
    have hle := left_poll slots hst
    rw [internal, gain, Bool.toNat_false]
    omega
  | worker =>
    have hle := left_worker hst
    rw [internal, gain, Bool.toNat_true]
    omega
  | node =>
    have hle := left_node hst
    rw [internal, gain, Bool.toNat_true]
    omega
  | sendControl dstRank m =>
    cases hst
    exact hsame rfl
  | tryRecvControl =>
    cases hst
    apply hsame
    rw [tryRecvControl]
    cases s.controlQueue <;> rfl

theorem poll_goesOn (slots : ℕ) (s : LocalTransport) :
    s.point = .idle ∨ ∃ e t, internal e = true ∧ step slots e s = .moved t := by
  cases hpoint : s.point with
  | idle => exact .inl rfl
  | workers p =>
    have hmoves : ∃ t, s.worker slots = .moved t := by
      rw [LocalTransport.worker, hpoint]
      simp only
      cases s.workerSlots.next slots p with
      | some next => exact ⟨_, rfl⟩
      | none => exact ⟨_, rfl⟩
    obtain ⟨t, ht⟩ := hmoves
    exact .inr ⟨.worker, t, rfl, ht⟩
  | nodes p =>
    have hmoves : ∃ t, s.node slots = .moved t := by
      rw [LocalTransport.node, hpoint]
      simp only
      cases s.nodeSlots.next slots p with
      | some next => exact ⟨_, rfl⟩
      | none => exact ⟨_, rfl⟩
    obtain ⟨t, ht⟩ := hmoves
    exact .inr ⟨.node, t, rfl, ht⟩

theorem poll_completes (slots : ℕ) (s : LocalTransport) :
    (localMachine slots).Completes internal (gain slots) (left slots) (·.point = .idle) s :=
  Machine.completes_of (I := fun _ => True) (fun _ _ _ hst => left_step hst)
    (fun _ _ _ _ _ _ => trivial) (fun s _ => poll_goesOn slots s) trivial

theorem localTransport_delivers (slots : ℕ) {s : LocalTransport}
    (h : (localMachine slots).Reachable s) :
    Delivers slots (·.workerId.toNat) (s.point = .idle) s.workerSlots ∧
      Delivers slots (·.sentinelWorkerId.toNat) (s.point = .idle) s.nodeSlots ∧
      s.received ++ s.controlQueue.map Prod.snd = s.sent.map Prod.snd ∧
      (localMachine slots).Completes internal (gain slots) (left slots) (·.point = .idle) s := by
  have hs := sound_of_reachable h
  refine ⟨?_, ?_, hs.control, poll_completes slots s⟩
  · refine delivers_of_follows hs.workers hs.ownWorkers fun hidle => ?_
    rw [hidle]
    rfl
  · refine delivers_of_follows hs.nodes hs.ownNodes fun hidle => ?_
    rw [hidle]
    rfl

/-- A poll after two frames of the same worker. -/
def pollsLatest : List LocalEvent :=
  [.publishWorker .zero, .publishWorker { WorkerFrame.zero with seqNo := 1 }, .poll, .worker,
    .worker, .worker, .node, .node]

theorem localTransport_delivers_latest : ∃ (g : NodeFrame) (s : LocalTransport),
    (localMachine 1).run pollsLatest (start .zero g) = some s ∧
      (s.workerSlots 0).published.length = 2 ∧ (s.workerSlots 0).handed.length = 1 ∧
      (s.workerSlots 0).handed.getLast? = (s.workerSlots 0).published.getLast? := by
  let g : NodeFrame :=
    { version := 0, sentinelWorkerId := 0, sentinelLocalMs := 0,
      hostname := ⟨List.replicate 64 0, rfl, List.mem_cons_self⟩, socketCount := 0,
      logicalCores := 0, sockets := Vector.replicate MAX_SOCKETS ⟨0, 0, 0, 0⟩,
      memTotalBytes := 0, memAvailBytes := 0, cgroupMemUsedBytes := 0, cgroupMemLimitBytes := 0 }
  have hrun : ∃ s, (localMachine 1).run pollsLatest (start .zero g) = some s ∧
      s.point = .idle ∧ (s.workerSlots 0).since = 2 ∧ (s.workerSlots 0).published.length = 2 ∧
      (s.workerSlots 0).handed.length = 1 := ⟨_, rfl, rfl, rfl, rfl, rfl⟩
  obtain ⟨s, hs, hidle, hsince, hpublished, hhanded⟩ := hrun
  have hstart : (localMachine 1).Reachable (start .zero g) := .start ⟨_, _, rfl⟩
  obtain ⟨hworkers, _⟩ := localTransport_delivers 1 (hstart.run hs)
  obtain ⟨k, hk, hle, hlatest⟩ := hworkers.latest hidle 0 Nat.one_pos
  refine ⟨g, s, hs, hpublished, hhanded, ?_⟩
  rw [hlatest, List.take_of_length_le (by omega)]

end LocalTransport

end Gempba.Telemetry
