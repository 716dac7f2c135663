import Gempba.Telemetry.LatestFrame
import Mathlib.Algebra.Group.Nat.Defs

/-!
# Freshness of snapshots

A snapshot request has a number. On its way to a rank it passes the queue of
the aggregator, its messages and the request that is due, and no later one is
ever before it. So the numbers on the frames of a rank never decrease, and a
frame with the number of a request was sampled after it.
-/

namespace Gempba.Telemetry

set_option autoImplicit false

def dueIds (id : UInt32) : List UInt32 := if id = 0 then [] else [id]

/-- The snapshot requests among control messages. -/
def snapshotIds (ms : List ControlMsg) : List UInt32 :=
  (ms.filter fun m => m.kind = .SNAPSHOT).map ControlMsg.value

theorem snapshotIds_append (ms ms' : List ControlMsg) :
    snapshotIds (ms ++ ms') = snapshotIds ms ++ snapshotIds ms' := by
  rw [snapshotIds, List.filter_append, List.map_append]
  rfl

def RankPoint.emitting : RankPoint → List UInt32
  | .emit snapshot => dueIds snapshot
  | _ => []

/-- What the aggregator's own request has yet to reach. -/
def ClientPoint.toStore : ClientPoint → List UInt32
  | .requestedMs id _ | .due id => [id]
  | .idle | .queueing _ | .requested _ | .pushing _ => []

/-- The message that is queued at the end of the command. -/
def ClientPoint.toPush : ClientPoint → List ControlMsg
  | .idle => []
  | .queueing m => [m]
  | .requestedMs id _ | .due id | .requested id | .pushing id => [⟨.SNAPSHOT, id⟩]

/-- The numbers do not decrease, and all of them are at most `n`. -/
def Climbs (ids : List UInt32) (n : ℕ) : Prop :=
  ids.Pairwise (· ≤ ·) ∧ ∀ id ∈ ids, id.toNat ≤ n

theorem Climbs.sublist {ids ids' : List UInt32} {n : ℕ} (h : Climbs ids n)
    (hsub : ids'.Sublist ids) : Climbs ids' n :=
  ⟨h.1.sublist hsub, fun id hid => h.2 id (hsub.subset hid)⟩

/-- The number of a new request is above all others. -/
theorem Climbs.concat {ids : List UInt32} {n : ℕ} {id : UInt32} (h : Climbs ids n)
    (hid : id.toNat = n + 1) : Climbs (ids ++ [id]) (n + 1) := by
  constructor
  · rw [List.pairwise_append]
    refine ⟨h.1, List.pairwise_singleton _ _, ?_⟩
    intro a ha b hb
    rw [List.mem_singleton.mp hb, UInt32.le_iff_toNat_le, hid]
    exact Nat.le_succ_of_le (h.2 a ha)
  · intro a ha
    obtain ha | ha := List.mem_append.mp ha
    · exact Nat.le_succ_of_le (h.2 a ha)
    · exact Nat.le_of_eq (by rw [List.mem_singleton.mp ha, hid])

theorem dueIds_sublist (id : UInt32) : (dueIds id).Sublist [id] := by
  rw [dueIds]
  split
  · exact List.nil_sublist _
  · exact .refl _

theorem dueIds_of_ne {id : UInt32} (h : id ≠ 0) : dueIds id = [id] := if_neg h

theorem snapshotIds_cons (m : ControlMsg) (ms : List ControlMsg) :
    snapshotIds (m :: ms) = snapshotIds [m] ++ snapshotIds ms := snapshotIds_append [m] ms

theorem Hub.readControl_snapshotRequested (m : ControlMsg) (h : Hub) :
    (h.readControl m).snapshotRequested = h.snapshotRequested := by
  obtain ⟨kind, value⟩ := m
  cases kind <;> rfl

/-- A request that is read replaces the one that was due. -/
theorem dueIds_readControl (m : ControlMsg) (h : Hub) :
    (dueIds (h.readControl m).snapshotDue).Sublist (dueIds h.snapshotDue ++ snapshotIds [m]) := by
  obtain ⟨kind, value⟩ := m
  cases kind with
  | SNAPSHOT => exact (dueIds_sublist value).trans (List.sublist_append_right _ _)
  | UNSPECIFIED | BE_NODE_SENTINEL | SET_INTERVAL_MS | PAUSE | RESUME =>
    exact List.sublist_append_left _ _

namespace Rank

/-- The requests of the rank: the one answered last, the one it is about to answer, the one that
is due, and those it has yet to read. -/
def ids (x : Rank) : List UInt32 :=
  x.hub.snapshotAnswered :: (x.point.emitting ++ dueIds x.hub.snapshotDue ++
    snapshotIds (x.inbound ++ x.channel))

/-- The messages that the rank has yet to send. -/
def fanOut (x : Rank) : List ControlMsg := x.point.pending ++ x.hub.pendingFanout

/-- A step of a rank that makes no request and sends no message. -/
structure Shrinks (x y : Rank) : Prop where
  ids : y.ids.Sublist x.ids
  fanOut : y.fanOut = x.fanOut
  controls : (y.inbound ++ y.channel).Sublist (x.inbound ++ x.channel)
  snapshotRequested : y.hub.snapshotRequested = x.hub.snapshotRequested

/-- The frames a rank has sent: their numbers do not decrease, and each was sampled after the
request whose number it has. -/
structure Sampled (x : Rank) : Prop where
  ordered : x.published.Pairwise fun a b => a.frame.snapshotId ≤ b.frame.snapshotId
  answered : ∀ a ∈ x.published, a.frame.snapshotId ≤ x.hub.snapshotAnswered
  accepted : ∀ a ∈ x.published, a.frame.snapshotId.toNat ≤ a.accepted
  pending : ∀ tag, ∀ a ∈ (x.links tag).pending, a ∈ x.published
  latestWorker : ∀ a, x.latestWorker = some a → a ∈ x.published

variable {x y : Rank}

theorem Shrinks.refl (x : Rank) : Shrinks x x := ⟨.refl _, rfl, .refl _, rfl⟩

theorem shrinks_setPoint {p : RankPoint} (hpending : p.pending = x.point.pending)
    (hemitting : p.emitting = x.point.emitting) : Shrinks x (x.setPoint p) := by
  refine ⟨?_, ?_, .refl _, rfl⟩
  · have hids : (x.setPoint p).ids = x.ids := by
      rw [Rank.ids, Rank.ids, ← hemitting]
      rfl
    exact hids ▸ .refl _
  · rw [Rank.fanOut, Rank.fanOut, ← hpending]
    rfl

theorem shrinks_deliverControl (h : x.deliverControl = some y) : Shrinks x y := by
  rw [deliverControl] at h
  split at h
  · rename_i m channel hchannel
    cases h
    have hcontrols : x.inbound ++ [m] ++ channel = x.inbound ++ x.channel := by
      rw [hchannel, List.append_assoc]
      rfl
    have hids : Rank.ids { x with channel := channel, inbound := x.inbound ++ [m] } = x.ids := by
      rw [Rank.ids, Rank.ids, ← hcontrols]
    exact ⟨hids ▸ .refl _, rfl, hcontrols ▸ .refl _, rfl⟩
  · cases h

theorem shrinks_tryRecvControl (h : x.point = .controls) : Shrinks x x.tryRecvControl := by
  rw [tryRecvControl]
  split
  · rename_i m inbound hinbound
    have hcontrols : x.inbound ++ x.channel = m :: (inbound ++ x.channel) := by
      rw [hinbound]
      rfl
    refine ⟨?_, ?_, ?_, Hub.readControl_snapshotRequested m x.hub⟩
    · have hdue := dueIds_readControl m x.hub
      have hids : x.ids = (x.hub.readControl m).snapshotAnswered :: (x.point.emitting ++
          (dueIds x.hub.snapshotDue ++ snapshotIds [m]) ++ snapshotIds (inbound ++ x.channel)) := by
        rw [Rank.ids, hcontrols, snapshotIds_cons, Hub.readControl_snapshotAnswered,
          List.append_assoc, List.append_assoc, List.append_assoc]
      rw [hids]
      exact (((List.Sublist.refl _).append hdue).append (.refl _)).cons_cons _
    · rw [Rank.fanOut, Rank.fanOut, ← Hub.pendingFanout_readControl m x.hub]
    · rw [hcontrols]
      exact List.sublist_cons_self m _
  · apply shrinks_setPoint
    · rw [h]
      rfl
    · rw [h]
      rfl

theorem shrinks_exchangeDue (h : x.point = .exchange) :
    Shrinks x ((x.setHub x.hub.exchangeDue.2).setPoint (.emit x.hub.exchangeDue.1)) := by
  refine ⟨?_, ?_, .refl _, rfl⟩
  · have hids : ((x.setHub x.hub.exchangeDue.2).setPoint (.emit x.hub.exchangeDue.1)).ids =
        x.ids := by
      rw [Rank.ids, Rank.ids, h]
      show _ :: (dueIds x.hub.snapshotDue ++ [] ++ _) = _ :: ([] ++ dueIds x.hub.snapshotDue ++ _)
      rw [List.append_nil, List.nil_append]
      rfl
    exact hids ▸ .refl _
  · rw [Rank.fanOut, Rank.fanOut, h]
    rfl

/-- The request that was about to be answered is the one answered last. -/
theorem shrinks_emitted {snapshot : UInt32} (h : x.point = .emit snapshot) (workerId : UInt32)
    (now : ℕ) (measured : WorkerFrame) (accepted : ℕ) :
    Shrinks x (x.emitted workerId snapshot now measured accepted) := by
  refine ⟨?_, ?_, .refl _, rfl⟩
  · have hids : (x.emitted workerId snapshot now measured accepted).ids =
        (if snapshot ≠ 0 then snapshot else x.hub.snapshotAnswered) ::
          (dueIds x.hub.snapshotDue ++ snapshotIds (x.inbound ++ x.channel)) := rfl
    rw [hids, Rank.ids, h, RankPoint.emitting]
    obtain rfl | hne := eq_or_ne snapshot 0
    · exact .refl _
    · rw [if_pos hne, dueIds_of_ne hne]
      exact List.sublist_cons_self _ _
  · rw [Rank.fanOut, Rank.fanOut, h]
    rfl

theorem shrinks_finished (h : x.point = .idle) (workerId : UInt32) (measured : WorkerFrame)
    (accepted : ℕ) (p : RankPoint) (hp : p.pending = []) (hp' : p.emitting = []) :
    Shrinks x (x.finished workerId measured accepted p) := by
  refine ⟨?_, ?_, .refl _, rfl⟩
  · have hids : (x.finished workerId measured accepted p).ids = x.ids := by
      rw [Rank.ids, Rank.ids, h]
      show _ :: (p.emitting ++ _ ++ _) = _
      rw [hp']
      rfl
    exact hids ▸ .refl _
  · rw [Rank.fanOut, Rank.fanOut, h]
    show p.pending ++ _ = _
    rw [hp]
    rfl

theorem shrinks_swapFanout (h : x.point = .fanOut) :
    Shrinks x ((x.setHub { x.hub with pendingFanout := [] }).setPoint
      (.sending x.hub.pendingFanout)) := by
  refine ⟨?_, ?_, .refl _, rfl⟩
  · have hids : ((x.setHub { x.hub with pendingFanout := [] }).setPoint
        (.sending x.hub.pendingFanout)).ids = x.ids := by
      rw [Rank.ids, Rank.ids, h]
      rfl
    exact hids ▸ .refl _
  · rw [Rank.fanOut, Rank.fanOut, h]
    exact List.append_nil _

theorem shrinks_of_eq (hhub : y.hub = x.hub) (hpoint : y.point = x.point)
    (hinbound : y.inbound = x.inbound) (hchannel : y.channel = x.channel) : Shrinks x y := by
  have hids : y.ids = x.ids := by rw [Rank.ids, Rank.ids, hhub, hpoint, hinbound, hchannel]
  have hcontrols : y.inbound ++ y.channel = x.inbound ++ x.channel := by rw [hinbound, hchannel]
  refine ⟨hids ▸ .refl _, ?_, hcontrols ▸ .refl _, congrArg Hub.snapshotRequested hhub⟩
  rw [Rank.fanOut, Rank.fanOut, hhub, hpoint]

theorem shrinks_deliver {tag : FrameTag} (h : x.deliver tag = some y) : Shrinks x y := by
  rw [deliver] at h
  split at h
  · cases h
    exact shrinks_of_eq rfl rfl rfl rfl
  · cases h

theorem shrinks_receive {tag : FrameTag} (h : x.receive tag = some y) : Shrinks x y := by
  rw [receive] at h
  split at h
  · cases h
    exact shrinks_of_eq rfl rfl rfl rfl
  · cases h

theorem sampled_start (isSentinel : Bool) : Sampled (start isSentinel) where
  ordered := List.Pairwise.nil
  answered a h := by cases h
  accepted a h := by cases h
  pending tag a h := by cases h
  latestWorker a h := by cases h

theorem Sampled.of_kept (hx : x.Sampled) (h : Kept x y) : y.Sampled where
  ordered := h.published ▸ hx.ordered
  answered := by
    rw [h.published, h.snapshotAnswered]
    exact hx.answered
  accepted := h.published ▸ hx.accepted
  pending := by
    rw [h.published, h.links]
    exact hx.pending
  latestWorker := by
    rw [h.published, h.latestWorker]
    exact hx.latestWorker

theorem Sampled.of_publish (hx : x.Sampled) {h : Hub} {a : Sample}
    (hanswered : x.hub.snapshotAnswered ≤ h.snapshotAnswered)
    (ha : a.frame.snapshotId = h.snapshotAnswered)
    (haccepted : h.snapshotAnswered.toNat ≤ a.accepted) (p : RankPoint) :
    (((x.setHub h).publish a).setPoint p).Sampled := by
  have hle : ∀ b ∈ x.published, b.frame.snapshotId ≤ a.frame.snapshotId := by
    intro b hb
    rw [ha]
    exact UInt32.le_trans (hx.answered b hb) hanswered
  constructor
  · show (x.published ++ [a]).Pairwise _
    rw [List.pairwise_append]
    refine ⟨hx.ordered, List.pairwise_singleton _ _, ?_⟩
    intro b hb c hc
    rw [List.mem_singleton.mp hc]
    exact hle b hb
  · intro b hb
    obtain hb | hb := List.mem_append.mp hb
    · exact UInt32.le_trans (hx.answered b hb) hanswered
    · rw [List.mem_singleton.mp hb, ha]
      exact UInt32.le_refl _
  · intro b hb
    obtain hb | hb := List.mem_append.mp hb
    · exact hx.accepted b hb
    · rw [List.mem_singleton.mp hb, ha]
      exact haccepted
  · intro tag b hb
    obtain hb | hb := mem_pending_publish hb
    · exact List.mem_append_left _ (hx.pending tag b hb)
    · rw [hb.1]
      exact List.mem_append_right _ List.mem_cons_self
  · intro b hb
    exact List.mem_append_left _ (hx.latestWorker b hb)

theorem Sampled.of_deliver (hx : x.Sampled) {tag : FrameTag} (h : x.deliver tag = some y) :
    y.Sampled := by
  obtain ⟨hlatest, hpublished, hhub, hpoint, hpending⟩ := deliver_eq_some h
  constructor
  · rw [hpublished]
    exact hx.ordered
  · rw [hpublished, hhub]
    exact hx.answered
  · rw [hpublished]
    exact hx.accepted
  · intro tag' a ha
    rw [hpending] at ha
    rw [hpublished]
    exact hx.pending tag' a ha
  · rw [hpublished, hlatest]
    exact hx.latestWorker

theorem Sampled.of_receive (hx : x.Sampled) {tag : FrameTag} (h : x.receive tag = some y) :
    y.Sampled := by
  obtain ⟨hpublished, hhub, hpoint, b, hb, hpending, hothers⟩ := receive_eq_some h
  have hmem : ∀ tag', ∀ a ∈ (y.links tag').pending, a ∈ (x.links tag').pending := by
    intro tag' a ha
    obtain rfl | hne := eq_or_ne tag' tag
    · rw [hpending]
      exact List.mem_cons_of_mem b ha
    · rw [← hothers tag' hne]
      exact ha
  constructor
  · rw [hpublished]
    exact hx.ordered
  · rw [hpublished, hhub]
    exact hx.answered
  · rw [hpublished]
    exact hx.accepted
  · intro tag' a ha
    rw [hpublished]
    exact hx.pending tag' a (hmem tag' a ha)
  · intro a ha
    cases hb.symm.trans ha
    rw [hpublished]
    apply hx.pending tag
    rw [hpending]
    exact List.mem_cons_self

end Rank

namespace Collection

variable {n : ℕ} {s t : Collection n} {r : Fin (n + 1)}

/-- The requests that a rank's own ones wait for, in the order in which they will be read. -/
def announced (s : Collection n) (r : Fin (n + 1)) : List UInt32 :=
  if r = 0 then s.client.toStore else snapshotIds ((s.rank 0).fanOut ++ s.client.toPush)

def upcoming (s : Collection n) (r : Fin (n + 1)) : List UInt32 :=
  (s.rank r).ids ++ s.announced r

/-- The number of the last request, and of the one under way. -/
def Numbered (requested : UInt32) (accepted : ℕ) : ClientPoint → Prop
  | .idle | .queueing _ => requested.toNat = accepted
  | .requestedMs id _ | .due id | .requested id => id.toNat = accepted
  | .pushing id => id.toNat = accepted ∧ requested = id

structure Fresh (s : Collection n) : Prop where
  numbered : Numbered (s.rank 0).hub.snapshotRequested s.accepted s.client
  climbs : ∀ r, Climbs (s.upcoming r) s.accepted
  quiet : ∀ r, r ≠ 0 → (s.rank r).fanOut = []
  alone : (s.rank 0).inbound ++ (s.rank 0).channel = []

theorem fresh_start (isSentinel : Fin (n + 1) → Bool) : Fresh (start isSentinel) where
  numbered := rfl
  climbs r := by
    have hupcoming : (start isSentinel).upcoming r = [0] := by
      rw [upcoming, announced]
      split <;> rfl
    rw [hupcoming]
    refine ⟨List.pairwise_singleton _ _, ?_⟩
    intro id hid
    rw [List.mem_singleton.mp hid]
    exact Nat.le_refl _
  quiet r hr := rfl
  alone := rfl

/-- A step of rank `r` that makes no request and sends no message. -/
structure Quietly (r : Fin (n + 1)) (s t : Collection n) : Prop where
  shrinks : Rank.Shrinks (s.rank r) (t.rank r)
  others : ∀ r', r' ≠ r → t.rank r' = s.rank r'
  client : t.client = s.client
  accepted : t.accepted = s.accepted

theorem Quietly.shrinks' (h : Quietly r s t) (r' : Fin (n + 1)) :
    Rank.Shrinks (s.rank r') (t.rank r') := by
  obtain rfl | hne := eq_or_ne r' r
  · exact h.shrinks
  · rw [h.others r' hne]
    exact .refl _

theorem quietly_set {x : Rank} (h : Rank.Shrinks (s.rank r) x) : Quietly r s (s.set r x) := by
  refine ⟨?_, fun r' hne => rank_set_ne hne x, rfl, rfl⟩
  rw [rank_set_self]
  exact h

theorem Fresh.of_quietly (hs : Fresh s) (h : Quietly r s t) : Fresh t := by
  have hzero := h.shrinks' 0
  refine ⟨?_, ?_, ?_, ?_⟩
  · rw [h.client, h.accepted, hzero.snapshotRequested]
    exact hs.numbered
  · intro r'
    have hannounced : t.announced r' = s.announced r' := by
      rw [announced, announced, h.client, hzero.fanOut]
    rw [h.accepted]
    apply (hs.climbs r').sublist
    rw [upcoming, upcoming, hannounced]
    exact (h.shrinks' r').ids.append (.refl _)
  · intro r' hr'
    rw [(h.shrinks' r').fanOut]
    exact hs.quiet r' hr'
  · have hcontrols := hzero.controls
    rw [hs.alone] at hcontrols
    exact List.sublist_nil.mp hcontrols

theorem quietly_point {p q : RankPoint} (hp : (s.rank r).point = p)
    (hpending : q.pending = p.pending) (hemitting : q.emitting = p.emitting) :
    Quietly r s (s.setPoint r q) := by
  apply quietly_set
  apply Rank.shrinks_setPoint
  · rw [hp, hpending]
  · rw [hp, hemitting]

theorem quietly_update {x : Option Rank} (h : s.update r x = .moved t)
    (hx : ∀ y, x = some y → Rank.Shrinks (s.rank r) y) : Quietly r s t := by
  cases x with
  | none => cases h
  | some y =>
    cases h
    exact quietly_set (hx y rfl)

theorem Quietly.of_eq {u : Collection n} (h : Quietly r s t) (hrank : u.rank = t.rank)
    (hclient : u.client = t.client) (haccepted : u.accepted = t.accepted) : Quietly r s u := by
  refine ⟨hrank ▸ h.shrinks, ?_, hclient.trans h.client, haccepted.trans h.accepted⟩
  rw [hrank]
  exact h.others

/-- The cases of a step, as seen from the requests. -/
theorem step_cases {e : CollectionEvent n} (h : step e s = .moved t) :
    (∃ r, Quietly r s t) ∨
      (∃ kind value now, s.applyControlFromClient kind value now = .moved t) ∨
      s.clientStep = .moved t ∨
      ∃ r m pending, (s.rank r).point = .sending (m :: pending) ∧
        t = s.sendToOthers r m pending := by
  cases e with
  | setIntervalMs r intervalMs =>
    cases h
    exact .inl ⟨r, quietly_set ⟨.refl _, rfl, .refl _, rfl⟩⟩
  | applyControlFromClient kind value now => exact .inr (.inl ⟨kind, value, now, h⟩)
  | client => exact .inr (.inr (.inl h))
  | deliverControl r =>
    exact .inl ⟨r, quietly_update h fun y hy => Rank.shrinks_deliverControl hy⟩
  | tickIfDue r =>
    rw [step, tickIfDue] at h
    split at h
    · rename_i hidle
      cases h
      exact .inl ⟨_, quietly_point hidle rfl rfl⟩
    · cases h
  | tryRecvControl r =>
    rw [step, tryRecvControl] at h
    split at h
    · rename_i hcontrols
      cases h
      exact .inl ⟨_, quietly_set (Rank.shrinks_tryRecvControl hcontrols)⟩
    · cases h
  | exchangeDue r =>
    rw [step, exchangeDue] at h
    split at h
    · rename_i hexchange
      cases h
      exact .inl ⟨_, quietly_set (Rank.shrinks_exchangeDue hexchange)⟩
    · cases h
  | emit r now measured =>
    rw [step, emit] at h
    split at h
    · rename_i snapshot hemit
      split at h
      · cases h
        exact .inl ⟨_, quietly_set (Rank.shrinks_emitted hemit _ _ _ _)⟩
      · rename_i hemits
        cases h
        have hzero : snapshot = 0 := not_not.mp (not_or.mp hemits).1
        rw [hzero] at hemit
        refine .inl ⟨r, quietly_point hemit ?_ ?_⟩
        · rfl
        · rfl
    · cases h
  | swapFanout r =>
    rw [step, swapFanout] at h
    split at h
    · rename_i hfanOut
      cases h
      exact .inl ⟨_, quietly_set (Rank.shrinks_swapFanout hfanOut.1)⟩
    · cases h
  | sendControl r =>
    rw [step, sendControl] at h
    split at h
    · rename_i m pending hpoint
      cases h
      exact .inr (.inr (.inr ⟨r, m, pending, hpoint, rfl⟩))
    · rename_i hpoint
      cases h
      refine .inl ⟨r, quietly_point hpoint ?_ ?_⟩
      · split <;> rfl
      · split <;> rfl
    · cases h
  | drainInboundFrames now =>
    rw [step, drainInboundFrames] at h
    split at h
    · rename_i hdrain
      split at h
      · cases h
        exact .inl ⟨_, quietly_point hdrain rfl rfl⟩
      · cases h
        exact .inl ⟨_, quietly_point hdrain rfl rfl⟩
    · cases h
  | deliver r tag => exact .inl ⟨r, quietly_update h fun y hy => Rank.shrinks_deliver hy⟩
  | receive r =>
    rw [step, receive] at h
    split at h
    · exact .inl ⟨r, quietly_update h fun y hy => Rank.shrinks_receive hy⟩
    · obtain ⟨u, hu, rfl⟩ := Transition.Outcome.map_eq_moved.mp h
      have hquietly := quietly_update hu fun y hy => Rank.shrinks_receive hy
      exact .inl ⟨r, hquietly.of_eq rfl rfl rfl⟩
    · cases h
  | probe =>
    rw [step, probe] at h
    split at h
    · rename_i closing hpoll
      split at h
      · cases h
        exact .inl ⟨_, quietly_point hpoll rfl rfl⟩
      · cases h
    · rename_i closing hpoll
      split at h
      · cases h
        refine .inl ⟨0, quietly_point hpoll ?_ ?_⟩
        · split <;> rfl
        · split <;> rfl
      · cases h
    · cases h
  | shutdown r measured =>
    rw [step, shutdown] at h
    split at h
    · rename_i hidle
      cases h
      refine .inl ⟨r, quietly_set (Rank.shrinks_finished hidle _ _ _ _ ?_ ?_)⟩
      · split <;> rfl
      · split <;> rfl
    · cases h
  | await expired =>
    rw [step, await] at h
    split at h
    · rename_i hawait
      split at h
      · cases h
        exact .inl ⟨_, quietly_point hawait rfl rfl⟩
      · cases h
        exact .inl ⟨_, quietly_point hawait rfl rfl⟩
    · cases h

theorem rank_store_self (h : Hub) (p : ClientPoint) :
    (s.store h p).rank 0 = (s.rank 0).setHub h := by
  show (s.set 0 ((s.rank 0).setHub h)).rank 0 = _
  exact rank_set_self _

theorem rank_store_ne (h : Hub) (p : ClientPoint) (hr : r ≠ 0) :
    (s.store h p).rank r = s.rank r := by
  show (s.set 0 ((s.rank 0).setHub h)).rank r = _
  exact rank_set_ne hr _

theorem announced_of_ne (hr : r ≠ 0) :
    s.announced r = snapshotIds (s.rank 0).point.pending ++
      snapshotIds ((s.rank 0).hub.pendingFanout ++ s.client.toPush) := by
  rw [announced, if_neg hr, Rank.fanOut, List.append_assoc, snapshotIds_append]

namespace Fresh

theorem upcoming_zero (hs : Fresh s) :
    s.upcoming 0 = (s.rank 0).hub.snapshotAnswered :: ((s.rank 0).point.emitting ++
      (dueIds (s.rank 0).hub.snapshotDue ++ s.client.toStore)) := by
  rw [upcoming, announced, if_pos rfl, Rank.ids, hs.alone, List.cons_append, List.append_assoc,
    List.append_assoc]
  rfl

theorem store (hs : Fresh s) {h : Hub} {p : ClientPoint}
    (hanswered : h.snapshotAnswered = (s.rank 0).hub.snapshotAnswered)
    (hnumbered : Numbered h.snapshotRequested s.accepted p)
    (hdue : (dueIds h.snapshotDue ++ p.toStore).Sublist
      (dueIds (s.rank 0).hub.snapshotDue ++ s.client.toStore))
    (hfanOut : snapshotIds (h.pendingFanout ++ p.toPush) =
      snapshotIds ((s.rank 0).hub.pendingFanout ++ s.client.toPush)) :
    Fresh (s.store h p) := by
  refine ⟨?_, ?_, ?_, ?_⟩
  · rw [rank_store_self]
    exact hnumbered
  · intro r
    apply (hs.climbs r).sublist
    obtain rfl | hr := eq_or_ne r 0
    · have hupcoming : (s.store h p).upcoming 0 = (s.rank 0).hub.snapshotAnswered ::
          ((s.rank 0).point.emitting ++ (dueIds h.snapshotDue ++ p.toStore)) := by
        rw [upcoming, announced, if_pos rfl, rank_store_self, ← hanswered, Rank.ids]
        show _ :: (_ ++ _ ++ snapshotIds ((s.rank 0).inbound ++ (s.rank 0).channel)) ++ _ = _
        rw [hs.alone, List.cons_append, List.append_assoc, List.append_assoc]
        rfl
      rw [hupcoming, hs.upcoming_zero]
      exact ((List.Sublist.refl _).append hdue).cons_cons _
    · have hupcoming : (s.store h p).upcoming r = s.upcoming r := by
        rw [upcoming, upcoming, announced_of_ne hr, announced_of_ne hr, rank_store_self,
          rank_store_ne h p hr, ← hfanOut]
        rfl
      exact hupcoming ▸ .refl _
  · intro r hr
    rw [rank_store_ne h p hr]
    exact hs.quiet r hr
  · rw [rank_store_self]
    exact hs.alone

theorem accept (hs : Fresh s) (hidle : s.client = .idle) {now : ℕ}
    (hfits : s.accepted + 1 < 2 ^ 32) :
    Fresh { s with
      client := .requestedMs ((s.rank 0).hub.snapshotRequested + 1) now
      accepted := s.accepted + 1 } := by
  have hnumbered := hs.numbered
  rw [hidle] at hnumbered
  have hid : ((s.rank 0).hub.snapshotRequested + 1).toNat = s.accepted + 1 := by
    rw [UInt32.toNat_add, hnumbered, UInt32.toNat_one, Nat.mod_eq_of_lt hfits]
  refine ⟨hid, ?_, hs.quiet, hs.alone⟩
  intro r
  have hconcat := (hs.climbs r).concat hid
  have hupcoming : { s with
      client := .requestedMs ((s.rank 0).hub.snapshotRequested + 1) now
      accepted := s.accepted + 1 : Collection n }.upcoming r =
        s.upcoming r ++ [(s.rank 0).hub.snapshotRequested + 1] := by
    obtain rfl | hr := eq_or_ne r 0
    · rw [upcoming, upcoming, announced, announced, if_pos rfl, if_pos rfl, hidle,
        List.append_assoc]
      rfl
    · rw [upcoming, upcoming, announced, announced, if_neg hr, if_neg hr, hidle, List.append_assoc,
        snapshotIds_append, snapshotIds_append, List.append_assoc]
      rfl
  rw [hupcoming]
  exact hconcat

theorem applyControlFromClient (hs : Fresh s) {kind : ControlKind} {value : UInt32} {now : ℕ}
    (h : s.applyControlFromClient kind value now = .moved t) (hfits : t.accepted < 2 ^ 32) :
    Fresh t := by
  rw [Collection.applyControlFromClient] at h
  split at h
  · cases h
  · rename_i hidle
    split at h
    · split at h
      · cases h
        exact hs
      · cases h
        exact hs.accept (not_not.mp hidle) hfits
    · rename_i hkind
      cases h
      have hidle := not_not.mp hidle
      have hnumbered := hs.numbered
      rw [hidle] at hnumbered
      cases kind with
      | SNAPSHOT => exact absurd rfl hkind
      | SET_INTERVAL_MS | PAUSE | RESUME =>
        refine hs.store ?_ ?_ ?_ ?_
        · rfl
        · exact hnumbered
        · rw [hidle]
          exact .refl _
        · rw [hidle, snapshotIds_append, snapshotIds_append]
          rfl
      | UNSPECIFIED | BE_NODE_SENTINEL =>
        refine hs.store ?_ ?_ ?_ ?_
        · rfl
        · exact hnumbered
        · rw [hidle]
          exact .refl _
        · rw [hidle]
          rfl

theorem clientStep (hs : Fresh s) (h : s.clientStep = .moved t) : Fresh t := by
  have hnumbered := hs.numbered
  rw [Collection.clientStep] at h
  split at h
  · cases h
  · rename_i m hclient
    rw [hclient] at hnumbered
    cases h
    refine hs.store ?_ ?_ ?_ ?_
    · rfl
    · exact hnumbered
    · rw [hclient]
      exact .refl _
    · rw [hclient]
      exact congrArg snapshotIds (List.append_nil _)
  · rename_i id now hclient
    rw [hclient] at hnumbered
    cases h
    refine hs.store ?_ ?_ ?_ ?_
    · rfl
    · exact hnumbered
    · rw [hclient]
      exact .refl _
    · rw [hclient]
      rfl
  · rename_i id hclient
    rw [hclient] at hnumbered
    cases h
    refine hs.store ?_ ?_ ?_ ?_
    · rfl
    · exact hnumbered
    · rw [hclient, ClientPoint.toStore, ClientPoint.toStore, List.append_nil]
      exact (dueIds_sublist id).trans (List.sublist_append_right _ _)
    · rw [hclient]
      rfl
  · rename_i id hclient
    rw [hclient] at hnumbered
    cases h
    refine hs.store ?_ ?_ ?_ ?_
    · rfl
    · exact ⟨hnumbered, rfl⟩
    · rw [hclient]
      exact .refl _
    · rw [hclient]
      rfl
  · rename_i id hclient
    rw [hclient] at hnumbered
    obtain ⟨hid, hrequested⟩ := hnumbered
    cases h
    refine hs.store ?_ ?_ ?_ ?_
    · rfl
    · show (s.rank 0).hub.snapshotRequested.toNat = s.accepted
      rw [hrequested, hid]
    · rw [hclient]
      exact .refl _
    · rw [hclient]
      exact congrArg snapshotIds (List.append_nil _)

theorem sendToOthers (hs : Fresh s) {m : ControlMsg} {pending : List ControlMsg}
    (hpoint : (s.rank r).point = .sending (m :: pending)) : Fresh (s.sendToOthers r m pending) := by
  have hr : r = 0 := by
    by_contra hne
    have hquiet := hs.quiet r hne
    rw [Rank.fanOut, hpoint] at hquiet
    cases hquiet
  subst hr
  have hself : (s.sendToOthers 0 m pending).rank 0 = _ := rank_sendToOthers_self m pending
  refine ⟨?_, ?_, ?_, ?_⟩
  · rw [hself]
    exact hs.numbered
  · intro r
    have hupcoming : (s.sendToOthers 0 m pending).upcoming r = s.upcoming r := by
      obtain rfl | hr := eq_or_ne r 0
      · rw [upcoming, upcoming, announced, announced, if_pos rfl, if_pos rfl, hself, Rank.ids,
          Rank.ids, hpoint]
        rfl
      · have hids : ((s.sendToOthers 0 m pending).rank r).ids =
            (s.rank r).ids ++ snapshotIds [m] := by
          rw [rank_sendToOthers_ne hr, Rank.ids, ← List.append_assoc, snapshotIds_append,
            ← List.append_assoc]
          rfl
        rw [upcoming, upcoming, announced_of_ne hr, announced_of_ne hr, hids, hself, hpoint,
          List.append_assoc, ← List.append_assoc (snapshotIds [m])]
        rw [RankPoint.pending, snapshotIds_cons m pending]
        rfl
    rw [hupcoming]
    exact hs.climbs r
  · intro r hr
    rw [rank_sendToOthers_ne hr]
    exact hs.quiet r hr
  · rw [hself]
    exact hs.alone

theorem step (hs : Fresh s) {e : CollectionEvent n} (h : Collection.step e s = .moved t)
    (hfits : t.accepted < 2 ^ 32) : Fresh t := by
  rcases step_cases h with ⟨r, hquietly⟩ | ⟨kind, value, now, happlied⟩ | hclient |
    ⟨r, m, pending, hpoint, rfl⟩
  · exact hs.of_quietly hquietly
  · exact hs.applyControlFromClient happlied hfits
  · exact hs.clientStep hclient
  · exact hs.sendToOthers hpoint

end Fresh

theorem accepted_mono {e : CollectionEvent n} (h : step e s = .moved t) :
    s.accepted ≤ t.accepted := by
  rcases step_cases h with ⟨r, hquietly⟩ | ⟨kind, value, now, happlied⟩ | hclient |
    ⟨r, m, pending, hpoint, rfl⟩
  · exact Nat.le_of_eq hquietly.accepted.symm
  · rw [applyControlFromClient] at happlied
    split at happlied
    · cases happlied
    · split at happlied
      · split at happlied
        · cases happlied
          exact Nat.le_refl _
        · cases happlied
          exact Nat.le_succ _
      · cases happlied
        exact Nat.le_refl _
  · rw [clientStep] at hclient
    split at hclient
    · cases hclient
    all_goals
      cases hclient
      exact Nat.le_refl _
  · exact Nat.le_refl _

theorem sampled_step {e : CollectionEvent n} (hs : Fresh s) (hx : (s.rank r).Sampled)
    (h : step e s = .moved t) : (t.rank r).Sampled := by
  have hclimbs := (hs.climbs r).sublist (List.sublist_append_left _ _)
  cases frameMove e h r with
  | kept hmove => exact hx.of_kept hmove
  | emitted snapshot now measured he hpoint hemits hmove =>
    rw [hmove]
    rw [Rank.ids, hpoint, RankPoint.emitting] at hclimbs
    obtain rfl | hne := eq_or_ne snapshot 0
    · refine hx.of_publish ?_ ?_ ?_ _
      · exact UInt32.le_refl _
      · rfl
      · exact hclimbs.2 _ List.mem_cons_self
    · rw [dueIds_of_ne hne] at hclimbs
      have hmem : snapshot ∈ [snapshot] ++ dueIds (s.rank r).hub.snapshotDue ++
          snapshotIds ((s.rank r).inbound ++ (s.rank r).channel) :=
        List.mem_append_left _ (List.mem_append_left _ List.mem_cons_self)
      have hanswered : ((s.rank r).hub.emit snapshot now).snapshotAnswered = snapshot := if_pos hne
      refine hx.of_publish ?_ ?_ ?_ _
      · rw [hanswered]
        exact (List.pairwise_cons.mp hclimbs.1).1 snapshot hmem
      · rfl
      · rw [hanswered]
        exact hclimbs.2 snapshot (List.mem_cons_of_mem _ hmem)
  | finished measured p he hpoint hp hmove =>
    rw [hmove]
    refine hx.of_publish ?_ ?_ ?_ _
    · exact UInt32.le_refl _
    · rfl
    · exact hclimbs.2 _ List.mem_cons_self
  | delivered tag hmove => exact hx.of_deliver hmove
  | received closing tag he hpoint hmove => exact hx.of_receive hmove

theorem fresh_of_reachable (h : (collectionMachine n).Reachable s) :
    s.accepted < 2 ^ 32 → Fresh s ∧ ∀ r, (s.rank r).Sampled := by
  apply h.invariant (I := fun s => s.accepted < 2 ^ 32 → Fresh s ∧ ∀ r, (s.rank r).Sampled)
  · rintro s ⟨isSentinel, rfl⟩ _
    exact ⟨fresh_start isSentinel, fun r => Rank.sampled_start (isSentinel r)⟩
  · intro s e t _ ih _ ht hfits
    obtain ⟨hfresh, hsampled⟩ := ih (Nat.lt_of_le_of_lt (accepted_mono ht) hfits)
    exact ⟨hfresh.step ht hfits, fun r => sampled_step hfresh (hsampled r) ht⟩

/-- Below 2^32 requests: the number of the last request is that of all accepted ones unless one is
under way; when no snapshot is outstanding although the wait is not over, every rank's frame was
sampled after that request; and the numbers on the frames of a rank do not decrease. -/
theorem snapshots_fresh (h : (collectionMachine n).Reachable s) (hfits : s.accepted < 2 ^ 32) :
    (s.client.locks = false → (s.rank 0).hub.snapshotRequested.toNat = s.accepted) ∧
      (∀ now, (s.rank 0).hub.snapshotRequested ≠ 0 →
        now - (s.rank 0).hub.snapshotRequestedMs < 1000 → ¬ s.SnapshotOutstanding now →
        ∀ r, ∃ a, (s.rank r).latestWorker = some a ∧
          (s.rank 0).hub.snapshotRequested.toNat ≤ a.accepted) ∧
      ∀ r, (s.rank r).published.Pairwise fun a b => a.frame.snapshotId ≤ b.frame.snapshotId := by
  obtain ⟨hfresh, hsampled⟩ := fresh_of_reachable h hfits
  refine ⟨?_, ?_, fun r => (hsampled r).ordered⟩
  · intro hlocks
    have hnumbered := hfresh.numbered
    cases hclient : s.client with
    | idle | queueing =>
      rw [hclient] at hnumbered
      exact hnumbered
    | requestedMs | due | requested | pushing =>
      rw [hclient] at hlocks
      cases hlocks
  · intro now hrequested hwait hanswered r
    have hstored : ¬ ∀ a ∈ (s.rank r).latestWorker,
        a.frame.snapshotId < (s.rank 0).hub.snapshotRequested :=
      fun hall => hanswered ⟨hrequested, hwait, r, hall⟩
    obtain ⟨a, ha⟩ := not_forall.mp hstored
    obtain ⟨hlatest, hlt⟩ := Classical.not_imp.mp ha
    have hmem := (hsampled r).latestWorker a hlatest
    refine ⟨a, hlatest, ?_⟩
    have hle := UInt32.le_iff_toNat_le.mp (UInt32.not_lt.mp hlt)
    exact Nat.le_trans hle ((hsampled r).accepted a hmem)

/-- One request, answered by the aggregator and by the rank. -/
def answeredBy (r : Fin (n + 1)) : List (CollectionEvent n) :=
  [.applyControlFromClient .SNAPSHOT 0 100, .client, .client, .client, .client, .tickIfDue 0,
    .tryRecvControl 0, .exchangeDue 0, .emit 0 150 .zero, .swapFanout 0, .sendControl 0,
    .sendControl 0, .deliverControl r, .tickIfDue r, .tryRecvControl r, .tryRecvControl r,
    .exchangeDue r, .emit r 160 .zero, .deliver 0 .WORKER_FRAME, .deliver r .WORKER_FRAME,
    .drainInboundFrames 170, .receive 0, .receive r]

def answeredRequest : List (CollectionEvent 1) := answeredBy (Fin.last 1)

theorem answeredRequest_runs : ∃ s : Collection 1,
    (collectionMachine 1).run answeredRequest (start fun _ => false) = some s ∧ s.accepted = 1 ∧
      (s.rank 0).hub.snapshotRequested = 1 ∧ (s.rank 0).hub.snapshotRequestedMs = 100 ∧
      ¬ s.SnapshotOutstanding 170 :=
  ⟨_, rfl, rfl, rfl, rfl, by decide⟩

theorem snapshots_fresh_answeredRequest : ∃ s : Collection 1,
    (s.rank 0).hub.snapshotRequested = 1 ∧
      ∀ r, ∃ a, (s.rank r).latestWorker = some a ∧ 1 ≤ a.accepted := by
  obtain ⟨s, hrun, haccepted, hrequested, hms, hanswered⟩ := answeredRequest_runs
  have hstart : (collectionMachine 1).Reachable (start fun _ => false) := .start ⟨_, rfl⟩
  have hs := hstart.run hrun
  have hfits : s.accepted < 2 ^ 32 := by
    rw [haccepted]
    decide
  have hnonzero : (s.rank 0).hub.snapshotRequested ≠ 0 := by
    rw [hrequested]
    decide
  have hwait : 170 - (s.rank 0).hub.snapshotRequestedMs < 1000 := by
    rw [hms]
    decide
  have hfresh := (snapshots_fresh hs hfits).2.1 170 hnonzero hwait hanswered
  rw [hrequested] at hfresh
  exact ⟨s, hrequested, hfresh⟩

/-- No rank shuts down. -/
def Running (_ : Collection n) : CollectionEvent n → Prop
  | .shutdown _ _ => False
  | _ => True

theorem running_step {e : CollectionEvent n} (hs : (collectionMachine n).ReachableWhere Running s)
    (he : s.Running e) (h : step e s = .moved t) :
    (collectionMachine n).ReachableWhere Running t := hs.tail he h

/-- The state after `k` requests, 50 milliseconds apart, of which no rank has answered one. -/
structure Requested (k : ℕ) (s : Collection 0) : Prop where
  reachable : (collectionMachine 0).ReachableWhere Running s
  client : s.client = .idle
  accepted : s.accepted = k
  requested : (s.rank 0).hub.snapshotRequested = UInt32.ofNat k
  requestedMs : (s.rank 0).hub.snapshotRequestedMs = 50 * k
  latestWorker : (s.rank 0).latestWorker = none

theorem Requested.next {k : ℕ} {s : Collection 0} (h : Requested k s) :
    ∃ t, Requested (k + 1) t := by
  have htime : ¬ (s.rank 0).hub.TooSoon (50 * (k + 1)) := by
    rintro ⟨_, hlt⟩
    rw [h.requestedMs] at hlt
    omega
  let id := (s.rank 0).hub.snapshotRequested + 1
  have happlied : step (.applyControlFromClient .SNAPSHOT 0 (50 * (k + 1))) s = .moved
      { s with client := .requestedMs id (50 * (k + 1)), accepted := s.accepted + 1 } := by
    rw [step, applyControlFromClient, if_neg (not_not.mpr h.client), if_pos rfl, if_neg htime]
  have hid : id = UInt32.ofNat (k + 1) := by
    show _ + 1 = _
    rw [h.requested, UInt32.ofNat_add]
    rfl
  have hrunning : s.Running (.applyControlFromClient .SNAPSHOT 0 (50 * (k + 1))) := trivial
  have h1 := running_step h.reachable hrunning happlied
  have h2 := running_step (e := .client) h1 trivial rfl
  have h3 := running_step (e := .client) h2 trivial rfl
  have h4 := running_step (e := .client) h3 trivial rfl
  have h5 := running_step (e := .client) h4 trivial rfl
  refine ⟨_, h5, rfl, congrArg (· + 1) h.accepted, ?_, ?_, h.latestWorker⟩
  · exact hid
  · rfl

theorem exists_requested (k : ℕ) : ∃ s, Requested k s := by
  induction k with
  | zero => exact ⟨start fun _ => false, .start ⟨_, rfl⟩, rfl, rfl, rfl, rfl, rfl⟩
  | succ k ih =>
    obtain ⟨s, hs⟩ := ih
    exact hs.next

/-- The number of the request after 2^32 - 1 others is that of no request. -/
theorem snapshot_not_fresh : ¬ ∀ (n : ℕ) (s : Collection n),
    (collectionMachine n).ReachableWhere Running s → s.client.locks = false → s.accepted ≠ 0 →
    ∀ now, now - (s.rank 0).hub.snapshotRequestedMs < 1000 → ¬ s.SnapshotOutstanding now →
    ∀ r, ∃ a, (s.rank r).latestWorker = some a ∧ s.accepted ≤ a.accepted := by
  intro hall
  obtain ⟨s, hs⟩ := exists_requested (2 ^ 32)
  have hlocks : s.client.locks = false := congrArg ClientPoint.locks hs.client
  have haccepted : s.accepted ≠ 0 := by
    rw [hs.accepted]
    decide
  have hwait : (s.rank 0).hub.snapshotRequestedMs - (s.rank 0).hub.snapshotRequestedMs < 1000 := by
    omega
  have hanswered : ¬ s.SnapshotOutstanding (s.rank 0).hub.snapshotRequestedMs := by
    rintro ⟨hrequested, _⟩
    rw [hs.requested] at hrequested
    exact hrequested rfl
  obtain ⟨a, ha, _⟩ := hall 0 s hs.reachable hlocks haccepted _ hwait hanswered 0
  rw [hs.latestWorker] at ha
  cases ha

end Collection

end Gempba.Telemetry
