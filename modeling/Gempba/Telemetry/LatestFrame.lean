import Gempba.Telemetry.FrameMoves
import Mathlib.Data.List.Pairwise

/-!
# The latest frame of a rank

The aggregator's table keeps the frame received last. As long as the final
frame of a rank is received after all others, the frames of a rank are stored
in the order in which they were sampled.
-/

namespace Gempba.Telemetry

set_option autoImplicit false

def RankPoint.polled : RankPoint → Option FrameTag
  | .poll _ tag => some tag
  | _ => none

namespace Rank

/-- The frame stored for the rank and those still to be received, regular ones first. -/
def queue (x : Rank) : List Sample :=
  x.latestWorker.toList ++ (x.links .WORKER_FRAME).pending ++
    (x.links .FINAL_WORKER_FRAME).pending

/-- The tick of the rank emits a frame in its next step. -/
def Emits (now : ℕ) (x : Rank) : Prop :=
  match x.point with
  | .emit snapshot => x.hub.Emits snapshot now
  | _ => False

instance (now : ℕ) (x : Rank) : Decidable (x.Emits now) := by
  unfold Emits
  split <;> infer_instance

end Rank

/-- The last number of a rank's frames. -/
def LAST_SEQ_NO : UInt32 := 0xFFFFFFFF

namespace Collection

variable {n : ℕ} {s t : Collection n} {r : Fin (n + 1)}

/-- The final frame of a rank is received after its regular ones, and no rank runs out of
sequence numbers. -/
def Timely (s : Collection n) : CollectionEvent n → Prop
  | .receive r => (s.rank 0).point.polled = some .FINAL_WORKER_FRAME →
      ((s.rank r).links .WORKER_FRAME).pending = []
  | .emit r now _ => (s.rank r).Emits now → (s.rank r).hub.seqNo ≠ LAST_SEQ_NO
  | .shutdown r _ => (s.rank r).hub.seqNo ≠ LAST_SEQ_NO
  | _ => True

instance (s : Collection n) (e : CollectionEvent n) : Decidable (s.Timely e) := by
  unfold Timely
  split <;> infer_instance

end Collection

namespace Rank

variable {x y : Rank} {a : Sample} {tag : FrameTag}

/-- The frames of a rank are in order, and nothing follows a final one. -/
structure Orderly (x : Rank) : Prop where
  sorted : x.queue.Pairwise fun a b => a.frame.seqNo < b.frame.seqNo
  bounded : ∀ a ∈ x.queue, a.frame.seqNo ≤ x.hub.seqNo
  tagged : ∀ tag, ∀ a ∈ (x.links tag).pending, a.tag = tag
  final : ∀ a ∈ x.queue, a.tag = .FINAL_WORKER_FRAME →
    a.frame.seqNo = x.hub.seqNo ∧ x.point.stopped = true

theorem orderly_start (isSentinel : Bool) : Orderly (start isSentinel) where
  sorted := List.Pairwise.nil
  bounded a h := by cases h
  tagged tag a h := by cases h
  final a h := by cases h

theorem Kept.queue_eq (h : Kept x y) : y.queue = x.queue := by
  rw [queue, queue, h.links, h.latestWorker]

theorem Orderly.of_kept (hx : x.Orderly) (h : Kept x y) : y.Orderly where
  sorted := h.queue_eq ▸ hx.sorted
  bounded := by
    rw [h.queue_eq, h.seqNo]
    exact hx.bounded
  tagged := h.links ▸ hx.tagged
  final := by
    rw [h.queue_eq, h.seqNo, h.stopped]
    exact hx.final

theorem mem_queue_of_mem_pending (h : a ∈ (x.links tag).pending) : a ∈ x.queue := by
  cases tag with
  | WORKER_FRAME => exact List.mem_append_left _ (List.mem_append_right _ h)
  | FINAL_WORKER_FRAME => exact List.mem_append_right _ h

/-- A rank that goes on has no final frame. -/
theorem Orderly.final_pending_eq_nil (hx : x.Orderly) (h : x.point.stopped = false) :
    (x.links .FINAL_WORKER_FRAME).pending = [] := by
  apply List.eq_nil_iff_forall_not_mem.mpr
  intro a ha
  have hstopped := (hx.final a (mem_queue_of_mem_pending ha) (hx.tagged _ a ha)).2
  rw [h] at hstopped
  cases hstopped

theorem Orderly.tag_of_mem (hx : x.Orderly) (h : x.point.stopped = false) (ha : a ∈ x.queue) :
    a.tag = .WORKER_FRAME := by
  cases htag : a.tag with
  | WORKER_FRAME => rfl
  | FINAL_WORKER_FRAME =>
    have hstopped := (hx.final a ha htag).2
    rw [h] at hstopped
    cases hstopped

/-- A new frame at the end of the queue. -/
structure Sent (a : Sample) (x y : Rank) : Prop where
  queue : y.queue = x.queue ++ [a]
  tagged : ∀ tag, ∀ b ∈ (y.links tag).pending, b ∈ (x.links tag).pending ∨ (b = a ∧ a.tag = tag)
  seqNo : y.hub.seqNo = x.hub.seqNo + 1
  sampled : a.frame.seqNo = y.hub.seqNo
  running : x.point.stopped = false
  stopped : a.tag = .FINAL_WORKER_FRAME → y.point.stopped = true

theorem lt_add_one {v : UInt32} (h : v ≠ LAST_SEQ_NO) : v < v + 1 := by
  have hne : v.toNat ≠ LAST_SEQ_NO.toNat := fun he => h (UInt32.toNat_inj.mp he)
  have hlast : LAST_SEQ_NO.toNat = 4294967295 := rfl
  have hlt := v.toNat_lt
  rw [UInt32.lt_iff_toNat_lt, UInt32.toNat_add, UInt32.toNat_one, Nat.mod_eq_of_lt (by omega)]
  exact Nat.lt_succ_self _

theorem Orderly.of_sent (hx : x.Orderly) (h : Sent a x y) (hseqNo : x.hub.seqNo ≠ LAST_SEQ_NO) :
    y.Orderly := by
  have hlt : ∀ b ∈ x.queue, b.frame.seqNo < a.frame.seqNo := by
    intro b hb
    rw [h.sampled, h.seqNo]
    exact UInt32.lt_of_le_of_lt (hx.bounded b hb) (lt_add_one hseqNo)
  constructor
  · rw [h.queue, List.pairwise_append]
    refine ⟨hx.sorted, List.pairwise_singleton _ _, ?_⟩
    intro b hb c hc
    rw [List.mem_singleton.mp hc]
    exact hlt b hb
  · intro b hb
    rw [h.queue] at hb
    obtain hb | hb := List.mem_append.mp hb
    · rw [← h.sampled]
      exact UInt32.le_of_lt (hlt b hb)
    · rw [List.mem_singleton.mp hb, h.sampled]
      exact UInt32.le_refl _
  · intro tag b hb
    obtain hb | ⟨rfl, htag⟩ := h.tagged tag b hb
    · exact hx.tagged tag b hb
    · exact htag
  · intro b hb htag
    rw [h.queue] at hb
    obtain hb | hb := List.mem_append.mp hb
    · rw [hx.tag_of_mem h.running hb] at htag
      cases htag
    · rw [List.mem_singleton.mp hb] at htag ⊢
      exact ⟨h.sampled, h.stopped htag⟩

/-- The frame at the head of the queue replaces the one stored. -/
structure Received (x y : Rank) : Prop where
  queue : x.queue = x.latestWorker.toList ++ y.queue
  latestWorker : ∃ b, y.latestWorker = some b
  tagged : ∀ tag, ∀ b ∈ (y.links tag).pending, b ∈ (x.links tag).pending
  hub : y.hub = x.hub
  point : y.point = x.point

theorem Received.mem (h : Received x y) (ha : a ∈ y.queue) : a ∈ x.queue := by
  rw [h.queue]
  exact List.mem_append_right _ ha

theorem Orderly.of_received (hx : x.Orderly) (h : Received x y) : y.Orderly where
  sorted := by
    have hsorted := hx.sorted
    rw [h.queue, List.pairwise_append] at hsorted
    exact hsorted.2.1
  bounded a ha := by
    rw [h.hub]
    exact hx.bounded a (h.mem ha)
  tagged tag a ha := hx.tagged tag a (h.tagged tag a ha)
  final a ha htag := by
    rw [h.hub, h.point]
    exact hx.final a (h.mem ha) htag

theorem pending_update (tag tag' : FrameTag) (l : Link) :
    ((Function.update x.links tag l) tag').pending =
      if tag' = tag then l.pending else (x.links tag').pending := by
  rw [Function.update_apply]
  split <;> rfl

theorem mem_queue_of_latestWorker (h : x.latestWorker = some a) : a ∈ x.queue := by
  rw [queue, h]
  exact List.mem_append_left _ (List.mem_append_left _ List.mem_cons_self)

/-- The stored frame is replaced by a later one, and a final one by none. -/
theorem Orderly.advances (hx : x.Orderly) (h : Received x y) (ha : x.latestWorker = some a) :
    ∃ b, y.latestWorker = some b ∧ a.frame.seqNo < b.frame.seqNo ∧
      a.tag ≠ .FINAL_WORKER_FRAME := by
  obtain ⟨b, hb⟩ := h.latestWorker
  have hmem : b ∈ y.queue := mem_queue_of_latestWorker hb
  have hlt : a.frame.seqNo < b.frame.seqNo := by
    have hsorted := hx.sorted
    rw [h.queue, ha, List.pairwise_append] at hsorted
    exact hsorted.2.2 a List.mem_cons_self b hmem
  refine ⟨b, hb, hlt, ?_⟩
  intro htag
  have hseqNo := (hx.final a (mem_queue_of_latestWorker ha) htag).1
  rw [hseqNo] at hlt
  exact UInt32.not_lt.mpr (hx.bounded b (h.mem hmem)) hlt

theorem pending_publish (a : Sample) (tag : FrameTag) :
    ((x.publish a).links tag).pending =
      if tag = a.tag then (x.links tag).pending ++ [a] else (x.links tag).pending := by
  rw [publish, pending_update]
  split
  · rename_i htag
    rw [htag, Link.pending, Link.pending, List.append_assoc]
  · rfl

theorem mem_pending_publish {b : Sample} (h : b ∈ ((x.publish a).links tag).pending) :
    b ∈ (x.links tag).pending ∨ (b = a ∧ a.tag = tag) := by
  rw [pending_publish] at h
  split at h
  · rename_i htag
    obtain h | h := List.mem_append.mp h
    · exact Or.inl h
    · exact Or.inr ⟨List.mem_singleton.mp h, htag.symm⟩
  · exact Or.inl h

theorem queue_publish (h : a.tag = .WORKER_FRAME → (x.links .FINAL_WORKER_FRAME).pending = []) :
    (x.publish a).queue = x.queue ++ [a] := by
  have hlatest : (x.publish a).latestWorker = x.latestWorker := rfl
  rw [queue, queue, hlatest, pending_publish, pending_publish]
  cases htag : a.tag with
  | WORKER_FRAME =>
    rw [if_pos rfl, if_neg (by decide), h htag, List.append_nil, List.append_nil, List.append_assoc]
  | FINAL_WORKER_FRAME =>
    rw [if_neg (by decide), if_pos rfl, List.append_assoc, List.append_assoc, List.append_assoc]

theorem Orderly.sent_emitted (hx : x.Orderly) (workerId : UInt32) {snapshot : UInt32} (now : ℕ)
    (measured : WorkerFrame) (accepted : ℕ) (h : x.point = .emit snapshot) :
    ∃ a, Sent a x (x.emitted workerId snapshot now measured accepted) := by
  have hrunning : x.point.stopped = false := congrArg RankPoint.stopped h
  have hfinal := hx.final_pending_eq_nil hrunning
  let sampling := x.setHub (x.hub.emit snapshot now)
  let a : Sample :=
    ⟨sampling.hub.snapshotWorkerFrame workerId measured, .WORKER_FRAME, accepted⟩
  have hqueue : (sampling.publish a).queue = x.queue ++ [a] := queue_publish fun _ => hfinal
  refine ⟨a, hqueue, ?_, rfl, rfl, hrunning, FrameTag.noConfusion⟩
  intro tag b hb
  exact mem_pending_publish hb

theorem sent_finished (workerId : UInt32) (accepted : ℕ) (measured : WorkerFrame)
    {p : RankPoint} (h : x.point = .idle) (hp : p.stopped = true) :
    ∃ a, Sent a x (x.finished workerId measured accepted p) := by
  let sampling := x.setHub { x.hub with seqNo := x.hub.seqNo + 1 }
  let a : Sample :=
    ⟨sampling.hub.snapshotWorkerFrame workerId measured, .FINAL_WORKER_FRAME, accepted⟩
  have hqueue : (sampling.publish a).queue = x.queue ++ [a] :=
    queue_publish FrameTag.noConfusion
  refine ⟨a, hqueue, ?_, rfl, rfl, congrArg RankPoint.stopped h, fun _ => hp⟩
  intro tag b hb
  exact mem_pending_publish hb

theorem deliver_eq_some (h : x.deliver tag = some y) :
    y.latestWorker = x.latestWorker ∧ y.published = x.published ∧ y.hub = x.hub ∧
      y.point = x.point ∧ ∀ tag', (y.links tag').pending = (x.links tag').pending := by
  rw [deliver] at h
  split at h
  · rename_i b inFlight hinFlight
    cases h
    refine ⟨rfl, rfl, rfl, rfl, ?_⟩
    intro tag'
    rw [pending_update]
    split
    · rename_i htag
      rw [htag, Link.pending, Link.pending, hinFlight, List.append_assoc]
      rfl
    · rfl
  · cases h

theorem Orderly.of_deliver (hx : x.Orderly) (h : x.deliver tag = some y) : y.Orderly := by
  obtain ⟨hlatest, hpublished, hhub, hpoint, hpending⟩ := deliver_eq_some h
  have hqueue : y.queue = x.queue := by rw [queue, queue, hlatest, hpending, hpending]
  constructor
  · rw [hqueue]
    exact hx.sorted
  · rw [hqueue, hhub]
    exact hx.bounded
  · intro tag' a ha
    rw [hpending] at ha
    exact hx.tagged tag' a ha
  · rw [hqueue, hhub, hpoint]
    exact hx.final

theorem receive_eq_some (h : x.receive tag = some y) :
    y.published = x.published ∧ y.hub = x.hub ∧ y.point = x.point ∧
      ∃ b, y.latestWorker = some b ∧ (x.links tag).pending = b :: (y.links tag).pending ∧
        ∀ tag', tag' ≠ tag → y.links tag' = x.links tag' := by
  rw [receive] at h
  split at h
  · rename_i b arrived harrived
    cases h
    refine ⟨rfl, rfl, rfl, b, rfl, ?_, ?_⟩
    · rw [pending_update, if_pos rfl, Link.pending, harrived]
      rfl
    · intro tag' hne
      exact Function.update_of_ne hne ..
  · cases h

theorem received_of_receive (h : x.receive tag = some y)
    (hworker : tag = .FINAL_WORKER_FRAME → (x.links .WORKER_FRAME).pending = []) :
    Received x y := by
  obtain ⟨hpublished, hhub, hpoint, b, hb, hpending, hothers⟩ := receive_eq_some h
  refine ⟨?_, ⟨b, hb⟩, ?_, hhub, hpoint⟩
  · cases tag with
    | WORKER_FRAME =>
      have hfinal := hothers .FINAL_WORKER_FRAME (by decide)
      rw [queue, queue, hb, hpending, hfinal, List.append_assoc]
      rfl
    | FINAL_WORKER_FRAME =>
      have hregular := hothers .WORKER_FRAME (by decide)
      rw [queue, queue, hb, hpending, hregular, hworker rfl, List.append_nil, List.append_nil]
      rfl
  · intro tag' c hc
    obtain rfl | hne := eq_or_ne tag' tag
    · rw [hpending]
      exact List.mem_cons_of_mem b hc
    · rw [← hothers tag' hne]
      exact hc

end Rank

namespace Collection

variable {n : ℕ} {s t : Collection n} {r : Fin (n + 1)}

theorem received_of_timely {closing : Bool} {tag : FrameTag} (htimely : s.Timely (.receive r))
    (hpoint : (s.rank 0).point = .poll closing tag)
    (h : (s.rank r).receive tag = some (t.rank r)) : Rank.Received (s.rank r) (t.rank r) := by
  apply Rank.received_of_receive h
  intro htag
  apply htimely
  rw [hpoint, htag]
  rfl

theorem orderly_step {e : CollectionEvent n} (hx : (s.rank r).Orderly) (htimely : s.Timely e)
    (h : step e s = .moved t) : (t.rank r).Orderly := by
  cases frameMove e h r with
  | kept hmove => exact hx.of_kept hmove
  | emitted snapshot now measured he hpoint hemits hmove =>
    obtain ⟨a, ha⟩ := hx.sent_emitted (workerId r) now measured s.accepted hpoint
    subst he
    rw [hmove]
    apply hx.of_sent ha
    apply htimely
    rw [Rank.Emits, hpoint]
    exact hemits
  | finished measured p he hpoint hp hmove =>
    obtain ⟨a, ha⟩ := Rank.sent_finished (workerId r) s.accepted measured hpoint hp
    subst he
    rw [hmove]
    exact hx.of_sent ha htimely
  | delivered tag hmove => exact hx.of_deliver hmove
  | received closing tag he hpoint hmove =>
    subst he
    exact hx.of_received (received_of_timely htimely hpoint hmove)

/-- What replaces a stored frame. -/
def Follows (a b : Sample) : Prop :=
  a.frame.seqNo ≤ b.frame.seqNo ∧ (a.tag = .FINAL_WORKER_FRAME → b = a)

theorem Follows.refl (a : Sample) : Follows a a := ⟨UInt32.le_refl _, fun _ => rfl⟩

theorem Follows.trans {a b c : Sample} (hab : Follows a b) (hbc : Follows b c) : Follows a c := by
  refine ⟨UInt32.le_trans hab.1 hbc.1, ?_⟩
  intro htag
  have hb := hab.2 htag
  subst hb
  exact hbc.2 htag

theorem follows_step {e : CollectionEvent n} (hx : (s.rank r).Orderly) (htimely : s.Timely e)
    (h : step e s = .moved t) {a : Sample} (ha : (s.rank r).latestWorker = some a) :
    ∃ b, (t.rank r).latestWorker = some b ∧ Follows a b := by
  cases frameMove e h r with
  | kept hmove => exact ⟨a, hmove.latestWorker.trans ha, .refl a⟩
  | emitted snapshot now measured he hpoint hemits hmove =>
    rw [hmove]
    exact ⟨a, ha, .refl a⟩
  | finished measured p he hpoint hp hmove =>
    rw [hmove]
    exact ⟨a, ha, .refl a⟩
  | delivered tag hmove => exact ⟨a, (Rank.deliver_eq_some hmove).1.trans ha, .refl a⟩
  | received closing tag he hpoint hmove =>
    subst he
    obtain ⟨b, hb, hlt, htag⟩ := hx.advances (received_of_timely htimely hpoint hmove) ha
    exact ⟨b, hb, UInt32.le_of_lt hlt, fun hfinal => absurd hfinal htag⟩

theorem orderly_of_reachable (h : (collectionMachine n).ReachableWhere Timely s)
    (r : Fin (n + 1)) : (s.rank r).Orderly := by
  apply h.invariant (I := fun s => (s.rank r).Orderly)
  · rintro s ⟨isSentinel, rfl⟩
    exact Rank.orderly_start (isSentinel r)
  · intro s e t _ hx htimely ht
    exact orderly_step hx htimely ht

/-- Over a run whose steps are timely, a stored frame is only replaced by later ones, and a final
one not at all. -/
theorem latestWorker_follows (hs : (collectionMachine n).ReachableWhere Timely s)
    (hst : Relation.ReflTransGen ((collectionMachine n).StepWhere Timely) s t) {a : Sample}
    (ha : (s.rank r).latestWorker = some a) :
    ∃ b, (t.rank r).latestWorker = some b ∧ Follows a b := by
  obtain ⟨u, hu, hus⟩ := hs
  induction hst with
  | refl => exact ⟨a, ha, .refl a⟩
  | tail hsv hvw ih =>
    obtain ⟨b, hb, hab⟩ := ih
    obtain ⟨e, htimely, hstep⟩ := hvw
    obtain ⟨c, hc, hbc⟩ :=
      follows_step (orderly_of_reachable ⟨u, hu, hus.trans hsv⟩ r) htimely hstep hb
    exact ⟨c, hc, hab.trans hbc⟩

/-- A tick of the aggregator up to its poll. -/
def aggregatorPolls (now : ℕ) : List (CollectionEvent 1) :=
  [.tickIfDue 0, .tryRecvControl 0, .exchangeDue 0, .emit 0 now .zero, .swapFanout 0,
    .sendControl 0, .drainInboundFrames now]

/-- A tick of rank 1 that emits a frame. -/
def otherTicks (now : ℕ) : List (CollectionEvent 1) :=
  [.tickIfDue 1, .tryRecvControl 1, .exchangeDue 1, .emit 1 now .zero, .swapFanout 1,
    .sendControl 1]

def receivesFrame : List (CollectionEvent 1) :=
  otherTicks 600 ++ aggregatorPolls 600 ++ [.deliver 1 .WORKER_FRAME, .receive 1]

def receivesNextFrame : List (CollectionEvent 1) :=
  [.probe, .probe] ++ otherTicks 1200 ++ aggregatorPolls 700 ++
    [.deliver 1 .WORKER_FRAME, .receive 1]

theorem receivesNextFrame_runs : ∃ s t : Collection 1,
    (collectionMachine 1).run receivesFrame (start fun _ => false) = some s ∧
      (collectionMachine 1).run receivesNextFrame s = some t ∧
      (collectionMachine 1).Obeys Timely receivesNextFrame s ∧
      ∃ a b, (s.rank 1).latestWorker = some a ∧ (t.rank 1).latestWorker = some b ∧
        a.frame.seqNo = 1 ∧ b.frame.seqNo = 2 :=
  ⟨_, _, rfl, rfl, by decide, _, _, rfl, rfl, rfl, rfl⟩

theorem latestWorker_follows_receivesNextFrame : ∃ s t : Collection 1, ∃ a b,
    (s.rank 1).latestWorker = some a ∧ (t.rank 1).latestWorker = some b ∧ Follows a b ∧
      a.frame.seqNo = 1 ∧ b.frame.seqNo = 2 := by
  obtain ⟨s, t, hrun, hnext, hobeys, a, b, ha, hb, hone, htwo⟩ := receivesNextFrame_runs
  have hstart : (collectionMachine 1).ReachableWhere Timely (start fun _ => false) :=
    .start ⟨_, rfl⟩
  have hs := hstart.run hrun (by decide)
  have hst := Transition.Machine.reflTransGen_of_run hnext hobeys
  obtain ⟨c, hc, hfollows⟩ := latestWorker_follows hs hst ha
  cases hb.symm.trans hc
  exact ⟨s, t, a, b, ha, hb, hfollows, hone, htwo⟩

/-- The regular frame arrives after the probe for regular frames, and is not received before the
final one. -/
def receivesFinalFrame : List (CollectionEvent 1) :=
  otherTicks 600 ++ [.shutdown 1 .zero] ++ aggregatorPolls 600 ++
    [.probe, .deliver 1 .WORKER_FRAME, .deliver 1 .FINAL_WORKER_FRAME, .receive 1]

def receivesRegularFrame : List (CollectionEvent 1) :=
  [.probe] ++ aggregatorPolls 700 ++ [.receive 1]

theorem receivesRegularFrame_runs : ∃ s t : Collection 1,
    (collectionMachine 1).run receivesFinalFrame (start fun _ => false) = some s ∧
      (collectionMachine 1).run receivesRegularFrame s = some t ∧
      ∃ a b, (s.rank 1).latestWorker = some a ∧ (t.rank 1).latestWorker = some b ∧
        a.tag = .FINAL_WORKER_FRAME ∧ a.frame.seqNo = 2 ∧ b.frame.seqNo = 1 :=
  ⟨_, _, rfl, rfl, _, _, rfl, rfl, rfl, rfl, rfl⟩

theorem final_frame_replaced : ¬ ∀ (n : ℕ) (s t : Collection n) (r : Fin (n + 1)) (a : Sample),
    (collectionMachine n).Reachable s →
    Relation.ReflTransGen ((collectionMachine n).StepWhere fun _ _ => True) s t →
    (s.rank r).latestWorker = some a →
    ∃ b, (t.rank r).latestWorker = some b ∧ Follows a b := by
  intro hall
  obtain ⟨s, t, hrun, hnext, a, b, ha, hb, htag, htwo, hone⟩ := receivesRegularFrame_runs
  have hstart : (collectionMachine 1).Reachable (start fun _ => false) := .start ⟨_, rfl⟩
  have hs := hstart.run hrun
  have hst := Transition.Machine.reflTransGen_of_run hnext (Transition.Machine.obeys_true _ _)
  obtain ⟨c, hc, hfollows⟩ := hall 1 s t 1 a hs hst ha
  cases hb.symm.trans hc
  have hle := hfollows.1
  rw [htwo, hone] at hle
  revert hle
  decide

end Collection

end Gempba.Telemetry
