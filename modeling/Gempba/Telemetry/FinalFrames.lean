import Gempba.Telemetry.LatestFrame
import Mathlib.Data.Fintype.Card

/-!
# The final frames of a run

A rank sends one final frame. The aggregator counts the final frames it
receives, and goes on to collect until it has one of every rank or the time
is up.
-/

namespace Gempba.Telemetry

set_option autoImplicit false

namespace Rank

variable {x y : Rank}

/-- The final frame of the rank has been received. -/
def Collected (x : Rank) : Prop :=
  x.point.stopped = true ∧ (x.links .FINAL_WORKER_FRAME).pending = []

instance (x : Rank) : Decidable x.Collected := by
  unfold Collected
  infer_instance

def sentFinal (x : Rank) : List Sample := x.published.filter (·.tag = .FINAL_WORKER_FRAME)

/-- The last frame that the rank has sent is its final one. -/
def LastSent (a : Sample) (x : Rank) : Prop :=
  x.published.getLast? = some a ∧ a.tag = .FINAL_WORKER_FRAME

inductive Ending (x : Rank) : Prop
  | running (hstopped : x.point.stopped = false)
    (hpending : (x.links .FINAL_WORKER_FRAME).pending = [])
  | sent (a : Sample) (hstopped : x.point.stopped = true)
    (hpending : (x.links .FINAL_WORKER_FRAME).pending = [a]) (hlast : x.LastSent a)
  | collected (a : Sample) (h : x.Collected) (hlast : x.LastSent a)

theorem ending_start (isSentinel : Bool) : Ending (start isSentinel) := .running rfl rfl

/-- The stop of the rank, its final frames under way and its last frame are the same. -/
theorem Ending.of_eq (hx : x.Ending) (hstopped : y.point.stopped = x.point.stopped)
    (hpending : (y.links .FINAL_WORKER_FRAME).pending = (x.links .FINAL_WORKER_FRAME).pending)
    (hpublished : y.published = x.published) : y.Ending := by
  cases hx with
  | running h hnone => exact .running (hstopped.trans h) (hpending.trans hnone)
  | sent a h hone hlast =>
    refine .sent a (hstopped.trans h) (hpending.trans hone) ?_
    rw [LastSent, hpublished]
    exact hlast
  | collected a h hlast =>
    refine .collected a ⟨hstopped.trans h.1, hpending.trans h.2⟩ ?_
    rw [LastSent, hpublished]
    exact hlast

theorem Ending.pending_eq_nil (hx : x.Ending) (h : x.point.stopped = false) :
    (x.links .FINAL_WORKER_FRAME).pending = [] := by
  cases hx with
  | running _ hpending => exact hpending
  | sent a hstopped hpending hlast =>
    rw [hstopped] at h
    cases h
  | collected a hcollected hlast => exact hcollected.2

/-- The final frame received is the last one that the rank has sent. -/
theorem Ending.received_final (hx : x.Ending) (h : x.receive .FINAL_WORKER_FRAME = some y) :
    y.Collected ∧ ¬ x.Collected ∧ ∃ a, y.latestWorker = some a ∧ y.LastSent a := by
  obtain ⟨hpublished, hhub, hpoint, b, hb, hpending, hothers⟩ := receive_eq_some h
  cases hx with
  | running hstopped hnone =>
    rw [hnone] at hpending
    cases hpending
  | sent a hstopped hone hlast =>
    rw [hone] at hpending
    obtain ⟨rfl, hnil⟩ := List.cons.inj hpending
    refine ⟨⟨?_, hnil.symm⟩, ?_, a, hb, ?_⟩
    · rw [hpoint]
      exact hstopped
    · intro hcollected
      rw [hcollected.2] at hone
      cases hone
    · rw [LastSent, hpublished]
      exact hlast
  | collected a hcollected hlast =>
    rw [hcollected.2] at hpending
    cases hpending

theorem receive_worker_eq_some (h : x.receive .WORKER_FRAME = some y) :
    y.point = x.point ∧ y.published = x.published ∧
      y.links .FINAL_WORKER_FRAME = x.links .FINAL_WORKER_FRAME := by
  obtain ⟨hpublished, hhub, hpoint, b, hb, hpending, hothers⟩ := receive_eq_some h
  exact ⟨hpoint, hpublished, hothers .FINAL_WORKER_FRAME (by decide)⟩

theorem Ending.of_receive (hx : x.Ending) {tag : FrameTag} (h : x.receive tag = some y) :
    y.Ending := by
  cases tag with
  | WORKER_FRAME =>
    obtain ⟨hpoint, hpublished, hlink⟩ := receive_worker_eq_some h
    exact hx.of_eq (congrArg RankPoint.stopped hpoint) (congrArg Link.pending hlink) hpublished
  | FINAL_WORKER_FRAME =>
    obtain ⟨hcollected, hnot, a, ha, hlast⟩ := hx.received_final h
    exact .collected a hcollected hlast

theorem pending_emitted (workerId snapshot : UInt32) (now : ℕ) (measured : WorkerFrame)
    (accepted : ℕ) :
    ((x.emitted workerId snapshot now measured accepted).links .FINAL_WORKER_FRAME).pending =
      (x.links .FINAL_WORKER_FRAME).pending := by
  let sampling := x.setHub (x.hub.emit snapshot now)
  let a : Sample :=
    ⟨sampling.hub.snapshotWorkerFrame workerId measured, .WORKER_FRAME, accepted⟩
  have h : ((sampling.publish a).links .FINAL_WORKER_FRAME).pending =
      (sampling.links .FINAL_WORKER_FRAME).pending := pending_publish a .FINAL_WORKER_FRAME
  exact h

theorem Ending.finished (hx : x.Ending) (workerId : UInt32) (measured : WorkerFrame)
    (accepted : ℕ) (p : RankPoint) (h : x.point = .idle) :
    ∃ a, ((x.finished workerId measured accepted p).links .FINAL_WORKER_FRAME).pending = [a] ∧
      (x.finished workerId measured accepted p).LastSent a := by
  have hnone := hx.pending_eq_nil (congrArg RankPoint.stopped h)
  let sampling := x.setHub { x.hub with seqNo := x.hub.seqNo + 1 }
  let a : Sample :=
    ⟨sampling.hub.snapshotWorkerFrame workerId measured, .FINAL_WORKER_FRAME, accepted⟩
  refine ⟨a, ?_, ?_, rfl⟩
  · have hpublish : ((sampling.publish a).links .FINAL_WORKER_FRAME).pending =
        (x.links .FINAL_WORKER_FRAME).pending ++ [a] := pending_publish a .FINAL_WORKER_FRAME
    rw [hnone] at hpublish
    exact hpublish
  · exact List.getLast?_concat

end Rank

namespace Collection

variable {n : ℕ} {s t : Collection n} {r : Fin (n + 1)} {e : CollectionEvent n}

theorem ending_step (hx : (s.rank r).Ending) (h : step e s = .moved t) : (t.rank r).Ending := by
  cases frameMove e h r with
  | kept hmove =>
    exact hx.of_eq hmove.stopped (by rw [hmove.links]) hmove.published
  | emitted snapshot now measured he hpoint hemits hmove =>
    have hrunning : (s.rank r).point.stopped = false := congrArg RankPoint.stopped hpoint
    rw [hmove]
    refine .running rfl ?_
    rw [Rank.pending_emitted]
    exact hx.pending_eq_nil hrunning
  | finished measured p he hpoint hp hmove =>
    obtain ⟨a, hpending, hlast⟩ := hx.finished (workerId r) measured s.accepted p hpoint
    rw [hmove]
    exact .sent a hp hpending hlast
  | delivered tag hmove =>
    obtain ⟨hlatest, hpublished, hhub, hpoint, hpending⟩ := Rank.deliver_eq_some hmove
    exact hx.of_eq (congrArg RankPoint.stopped hpoint) (hpending .FINAL_WORKER_FRAME) hpublished
  | received closing tag he hpoint hmove => exact hx.of_receive hmove

theorem ending_of_reachable {P : Collection n → CollectionEvent n → Prop}
    (h : (collectionMachine n).ReachableWhere P s) (r : Fin (n + 1)) : (s.rank r).Ending := by
  apply h.invariant (I := fun s => (s.rank r).Ending)
  · rintro s ⟨isSentinel, rfl⟩
    exact Rank.ending_start (isSentinel r)
  · intro s e t _ hx _ ht
    exact ending_step hx ht

/-- A rank sends its final frame when it stops, and no other one. -/
theorem length_sentFinal_step
    (hx : (s.rank r).sentFinal.length = if (s.rank r).point.stopped then 1 else 0)
    (h : step e s = .moved t) :
    (t.rank r).sentFinal.length = if (t.rank r).point.stopped then 1 else 0 := by
  have hsame {x : Rank} (hpublished : x.published = (s.rank r).published)
      (hstopped : x.point.stopped = (s.rank r).point.stopped) :
      x.sentFinal.length = if x.point.stopped then 1 else 0 := by
    rw [Rank.sentFinal, hpublished, hstopped]
    exact hx
  cases frameMove e h r with
  | kept hmove => exact hsame hmove.published hmove.stopped
  | emitted snapshot now measured he hpoint hemits hmove =>
    rw [hpoint] at hx
    rw [hmove, Rank.sentFinal]
    refine (congrArg List.length (List.filter_append ..)).trans ?_
    rw [List.length_append]
    exact congrArg (· + 0) hx
  | finished measured p he hpoint hp hmove =>
    rw [hpoint] at hx
    have hpoint' : (t.rank r).point.stopped = true := by
      rw [hmove]
      exact hp
    rw [hpoint', hmove, Rank.sentFinal]
    refine (congrArg List.length (List.filter_append ..)).trans ?_
    rw [List.length_append]
    exact congrArg (· + 1) hx
  | delivered tag hmove =>
    obtain ⟨hlatest, hpublished, hhub, hpoint, hpending⟩ := Rank.deliver_eq_some hmove
    exact hsame hpublished (congrArg RankPoint.stopped hpoint)
  | received closing tag he hpoint hmove =>
    obtain ⟨hpublished, hhub, hpoint, b, hb, hpending, hothers⟩ := Rank.receive_eq_some hmove
    exact hsame hpublished (congrArg RankPoint.stopped hpoint)

/-- Of the final frames of a rank, which are at most one, those are received that are not under
way. -/
theorem length_sentFinal {P : Collection n → CollectionEvent n → Prop}
    (h : (collectionMachine n).ReachableWhere P s) (r : Fin (n + 1)) :
    (s.rank r).sentFinal.length =
      ((s.rank r).links .FINAL_WORKER_FRAME).pending.length +
        if (s.rank r).Collected then 1 else 0 := by
  have hsent : (s.rank r).sentFinal.length = if (s.rank r).point.stopped then 1 else 0 := by
    apply h.invariant
      (I := fun s => (s.rank r).sentFinal.length = if (s.rank r).point.stopped then 1 else 0)
    · rintro s ⟨isSentinel, rfl⟩
      rfl
    · intro s e t _ hx _ ht
      exact length_sentFinal_step hx ht
  rw [hsent]
  cases ending_of_reachable h r with
  | running hstopped hpending =>
    have hnot : ¬ (s.rank r).Collected := by
      intro hcollected
      rw [hcollected.1] at hstopped
      cases hstopped
    rw [hstopped, hpending, if_neg hnot]
    rfl
  | sent a hstopped hpending hlast =>
    have hnot : ¬ (s.rank r).Collected := by
      intro hcollected
      rw [hcollected.2] at hpending
      cases hpending
    rw [hstopped, hpending, if_neg hnot]
    rfl
  | collected a hcollected hlast =>
    rw [hcollected.1, hcollected.2, if_pos hcollected]
    rfl

/-- A final frame is received from rank `r`. -/
def Counts (r : Fin (n + 1)) (e : CollectionEvent n) (s : Collection n) : Prop :=
  e = .receive r ∧ (s.rank 0).point.polled = some .FINAL_WORKER_FRAME

/-- Only the receipt of a final frame collects a rank. -/
theorem collected_step (hx : (s.rank r).Ending) (h : step e s = .moved t)
    (hcounts : ¬ Counts r e s) : (t.rank r).Collected ↔ (s.rank r).Collected := by
  cases frameMove e h r with
  | kept hmove => rw [Rank.Collected, Rank.Collected, hmove.stopped, hmove.links]
  | emitted snapshot now measured he hpoint hemits hmove =>
    have hrunning : (s.rank r).point.stopped = false := congrArg RankPoint.stopped hpoint
    rw [hmove]
    constructor
    · intro hcollected
      cases hcollected.1
    · intro hcollected
      rw [hcollected.1] at hrunning
      cases hrunning
  | finished measured p he hpoint hp hmove =>
    have hrunning : (s.rank r).point.stopped = false := congrArg RankPoint.stopped hpoint
    obtain ⟨a, hpending, hlast⟩ := hx.finished (workerId r) measured s.accepted p hpoint
    rw [hmove]
    constructor
    · intro hcollected
      rw [hcollected.2] at hpending
      cases hpending
    · intro hcollected
      rw [hcollected.1] at hrunning
      cases hrunning
  | delivered tag hmove =>
    obtain ⟨hlatest, hpublished, hhub, hpoint, hpending⟩ := Rank.deliver_eq_some hmove
    rw [Rank.Collected, Rank.Collected, hpoint, hpending]
  | received closing tag he hpoint hmove =>
    cases tag with
    | WORKER_FRAME =>
      obtain ⟨hpoint, hpublished, hlink⟩ := Rank.receive_worker_eq_some hmove
      rw [Rank.Collected, Rank.Collected, hpoint, hlink]
    | FINAL_WORKER_FRAME =>
      refine absurd ⟨he, ?_⟩ hcounts
      rw [hpoint]
      rfl

theorem finalFramesReceived_update {x : Option Rank} (h : s.update r x = .moved t) :
    t.finalFramesReceived = s.finalFramesReceived := by
  cases x with
  | none => cases h
  | some x =>
    cases h
    rfl

theorem finalFramesReceived_receive (h : s.receive r = .moved t) :
    ((s.rank 0).point.polled = some .FINAL_WORKER_FRAME ∧
      (s.rank r).receive .FINAL_WORKER_FRAME = some (t.rank r) ∧
      t.finalFramesReceived = s.finalFramesReceived + 1) ∨
    ((s.rank 0).point.polled ≠ some .FINAL_WORKER_FRAME ∧
      t.finalFramesReceived = s.finalFramesReceived) := by
  rw [receive] at h
  split at h
  · rename_i closing hpoll
    refine Or.inr ⟨?_, finalFramesReceived_update h⟩
    rw [hpoll]
    exact fun htag => FrameTag.noConfusion (Option.some.inj htag)
  · rename_i closing hpoll
    obtain ⟨u, hu, rfl⟩ := Transition.Outcome.map_eq_moved.mp h
    refine Or.inl ⟨?_, (update_eq_moved hu).1, ?_⟩
    · rw [hpoll]
      rfl
    · exact congrArg (· + 1) (finalFramesReceived_update hu)
  · cases h

theorem finalFramesReceived_step (h : step e s = .moved t) (hreceive : ∀ r, e ≠ .receive r) :
    t.finalFramesReceived = s.finalFramesReceived := by
  cases e with
  | receive r => exact absurd rfl (hreceive r)
  | deliverControl r | deliver r tag => exact finalFramesReceived_update h
  | setIntervalMs r intervalMs =>
    cases h
    rfl
  | applyControlFromClient kind value now =>
    rw [step, applyControlFromClient] at h
    split at h
    · cases h
    · split at h
      · split at h <;> cases h <;> rfl
      · cases h
        rfl
  | client =>
    rw [step, clientStep] at h
    split at h <;> cases h <;> rfl
  | tickIfDue r | tryRecvControl r | exchangeDue r | swapFanout r | shutdown r measured =>
    simp only [step, tickIfDue, tryRecvControl, exchangeDue, swapFanout, shutdown] at h
    split at h
    · cases h
      rfl
    · cases h
  | emit r now measured =>
    rw [step, emit] at h
    split at h
    · split at h <;> cases h <;> rfl
    · cases h
  | sendControl r =>
    rw [step, sendControl] at h
    split at h <;> cases h <;> rfl
  | drainInboundFrames now | await expired =>
    simp only [step, drainInboundFrames, await] at h
    split at h
    · split at h <;> cases h <;> rfl
    · cases h
  | probe =>
    rw [step, probe] at h
    split at h
    · split at h
      · cases h
        rfl
      · cases h
    · split at h
      · cases h
        rfl
      · cases h
    · cases h

/-- The ranks whose final frame has been received. -/
def collected (s : Collection n) : Finset (Fin (n + 1)) :=
  Finset.univ.filter fun r => (s.rank r).Collected

theorem mem_collected : r ∈ s.collected ↔ (s.rank r).Collected := by
  rw [collected, Finset.mem_filter]
  exact and_iff_right (Finset.mem_univ r)

theorem collected_uncounted (hx : ∀ r, (s.rank r).Ending) (h : step e s = .moved t)
    (hcounts : ∀ r, ¬ Counts r e s) : t.collected = s.collected := by
  ext r
  rw [mem_collected, mem_collected]
  exact collected_step (hx r) h (hcounts r)

theorem collected_counted (hx : ∀ r, (s.rank r).Ending) (h : step (.receive r) s = .moved t)
    (hreceive : (s.rank r).receive .FINAL_WORKER_FRAME = some (t.rank r)) :
    r ∉ s.collected ∧ t.collected = insert r s.collected := by
  obtain ⟨hcollected, hnot, a, ha, hlast⟩ := (hx r).received_final hreceive
  constructor
  · rw [mem_collected]
    exact hnot
  · ext r'
    rw [Finset.mem_insert, mem_collected, mem_collected]
    obtain rfl | hne := eq_or_ne r' r
    · exact iff_of_true hcollected (Or.inl rfl)
    · rw [or_iff_right hne]
      apply collected_step (hx r') h
      rintro ⟨he, hpolled⟩
      cases he
      exact hne rfl

/-- The count of final frames is the number of ranks whose final frame has been received. -/
theorem finalFramesReceived_eq {P : Collection n → CollectionEvent n → Prop}
    (h : (collectionMachine n).ReachableWhere P s) :
    s.finalFramesReceived = s.collected.card := by
  have hall : s.finalFramesReceived = s.collected.card ∧ ∀ r, (s.rank r).Ending := by
    apply h.invariant
      (I := fun s => s.finalFramesReceived = s.collected.card ∧ ∀ r, (s.rank r).Ending)
    · rintro s ⟨isSentinel, rfl⟩
      refine ⟨?_, fun r => Rank.ending_start (isSentinel r)⟩
      have hnone : (start isSentinel).collected = ∅ := by
        apply Finset.eq_empty_of_forall_notMem
        intro r hr
        cases (mem_collected.mp hr).1
      rw [hnone]
      rfl
    · intro s e t _ hinv _ ht
      obtain ⟨hcount, hx⟩ := hinv
      replace ht : step e s = .moved t := ht
      refine ⟨?_, fun r => ending_step (hx r) ht⟩
      by_cases hreceive : ∃ r, e = .receive r
      · obtain ⟨r, rfl⟩ := hreceive
        obtain ⟨hpolled, hfinal, hone⟩ | ⟨hpolled, hsame⟩ := finalFramesReceived_receive ht
        · obtain ⟨hnot, hinsert⟩ := collected_counted hx ht hfinal
          rw [hone, hinsert, Finset.card_insert_of_notMem hnot, hcount]
        · rw [hsame, hcount, collected_uncounted hx ht]
          rintro r' ⟨_, hfinal⟩
          exact hpolled hfinal
      · rw [finalFramesReceived_step ht fun r he => hreceive ⟨r, he⟩, hcount,
          collected_uncounted hx ht]
        rintro r ⟨he, _⟩
        exact hreceive ⟨r, he⟩
  exact hall.1

/-- The table holds the final frame of a rank that has been collected, and no frame of the rank is
under way. -/
def Settled (r : Fin (n + 1)) (s : Collection n) : Prop :=
  ∃ a, (s.rank r).latestWorker = some a ∧ (s.rank r).LastSent a ∧
    ((s.rank r).links .WORKER_FRAME).pending = []

theorem settled_step (hx : (s.rank r).Ending) (hcollected : (s.rank r).Collected)
    (hsettled : Settled r s) (h : step e s = .moved t) : Settled r t := by
  obtain ⟨a, ha, hlast, hnone⟩ := hsettled
  cases frameMove e h r with
  | kept hmove =>
    refine ⟨a, hmove.latestWorker.trans ha, ?_, ?_⟩
    · rw [Rank.LastSent, hmove.published]
      exact hlast
    · rw [hmove.links]
      exact hnone
  | emitted snapshot now measured he hpoint hemits hmove =>
    have hstopped := hcollected.1
    rw [hpoint] at hstopped
    cases hstopped
  | finished measured p he hpoint hp hmove =>
    have hstopped := hcollected.1
    rw [hpoint] at hstopped
    cases hstopped
  | delivered tag hmove =>
    obtain ⟨hlatest, hpublished, hhub, hpoint, hpending⟩ := Rank.deliver_eq_some hmove
    refine ⟨a, hlatest.trans ha, ?_, (hpending .WORKER_FRAME).trans hnone⟩
    rw [Rank.LastSent, hpublished]
    exact hlast
  | received closing tag he hpoint hmove =>
    cases tag with
    | WORKER_FRAME =>
      obtain ⟨hpublished, hhub, hpoint, b, hb, hpending, hothers⟩ := Rank.receive_eq_some hmove
      rw [hnone] at hpending
      cases hpending
    | FINAL_WORKER_FRAME => exact absurd hcollected (hx.received_final hmove).2.1

/-- A rank is collected by its final frame, once all others have been received. -/
theorem settled_of_counts (hx : (s.rank r).Ending) (htimely : s.Timely (.receive r))
    (hcounts : Counts r (.receive r) s)
    (hreceive : (s.rank r).receive .FINAL_WORKER_FRAME = some (t.rank r)) : Settled r t := by
  obtain ⟨hcollected, hnot, a, ha, hlast⟩ := hx.received_final hreceive
  refine ⟨a, ha, hlast, ?_⟩
  obtain ⟨hpublished, hhub, hpoint, b, hb, hpending, hothers⟩ := Rank.receive_eq_some hreceive
  rw [hothers .WORKER_FRAME (by decide)]
  exact htimely hcounts.2

theorem settled_of_collected (h : (collectionMachine n).ReachableWhere Timely s)
    (hcollected : (s.rank r).Collected) : Settled r s := by
  have hall : (s.rank r).Ending ∧ ((s.rank r).Collected → Settled r s) := by
    apply h.invariant (I := fun s => (s.rank r).Ending ∧ ((s.rank r).Collected → Settled r s))
    · rintro s ⟨isSentinel, rfl⟩
      refine ⟨Rank.ending_start (isSentinel r), ?_⟩
      intro hcollected
      cases hcollected.1
    · intro s e t _ hinv htimely ht
      obtain ⟨hx, hsettled⟩ := hinv
      replace ht : step e s = .moved t := ht
      refine ⟨ending_step hx ht, ?_⟩
      intro hcollected
      by_cases hcounts : Counts r e s
      · obtain ⟨rfl, hpolled⟩ := hcounts
        obtain ⟨_, hfinal, _⟩ | ⟨hnot, _⟩ := finalFramesReceived_receive ht
        · exact settled_of_counts hx htimely ⟨rfl, hpolled⟩ hfinal
        · exact absurd hpolled hnot
      · have hbefore := (collected_step hx ht hcounts).mp hcollected
        exact settled_step hx hbefore (hsettled hbefore) ht
  exact hall.2 hcollected

/-- A collected rank stays collected. -/
theorem collected_subset (hx : ∀ r, (s.rank r).Ending) (h : step e s = .moved t) :
    s.collected ⊆ t.collected := by
  intro r hr
  rw [mem_collected] at hr ⊢
  by_cases hcounts : Counts r e s
  · obtain ⟨rfl, hpolled⟩ := hcounts
    obtain ⟨_, hfinal, _⟩ | ⟨hnot, _⟩ := finalFramesReceived_receive h
    · exact ((hx r).received_final hfinal).1
    · exact absurd hpolled hnot
  · exact (collected_step (hx r) h hcounts).mpr hr

theorem closed_of_set {x : Rank} (h : ((s.set r x).rank 0).point = .closed) :
    (r = 0 ∧ x.point = .closed) ∨ (s.rank 0).point = .closed := by
  obtain hr | hne := eq_or_ne r 0
  · subst hr
    rw [rank_set_self] at h
    exact Or.inl ⟨rfl, h⟩
  · rw [rank_set_ne hne.symm] at h
    exact Or.inr h

theorem closed_of_setPoint {p : RankPoint} (hp : p ≠ .closed)
    (h : ((s.setPoint r p).rank 0).point = .closed) : (s.rank 0).point = .closed := by
  obtain ⟨_, hclosed⟩ | hclosed := closed_of_set h
  · exact absurd hclosed hp
  · exact hclosed

theorem closed_of_setHub {h : Hub} (hclosed : ((s.setHub r h).rank 0).point = .closed) :
    (s.rank 0).point = .closed := by
  obtain ⟨rfl, hclosed⟩ | hclosed := closed_of_set hclosed
  · exact hclosed
  · exact hclosed

theorem closed_of_update {x : Option Rank} (h : s.update r x = .moved t)
    (hx : ∀ y, x = some y → y.point = (s.rank r).point) (hclosed : (t.rank 0).point = .closed) :
    (s.rank 0).point = .closed := by
  cases x with
  | none => cases h
  | some x =>
    cases h
    obtain ⟨rfl, hclosed⟩ | hclosed := closed_of_set hclosed
    · rw [← hx x rfl]
      exact hclosed
    · exact hclosed

theorem point_deliverControl {x y : Rank} (h : x.deliverControl = some y) :
    y.point = x.point := by
  rw [Rank.deliverControl] at h
  split at h
  · cases h
    rfl
  · cases h

theorem closed_of_receive (h : s.receive r = .moved t) (hclosed : (t.rank 0).point = .closed) :
    (s.rank 0).point = .closed := by
  rw [receive] at h
  split at h
  · exact closed_of_update h (fun y hy => (Rank.receive_eq_some hy).2.2.1) hclosed
  · obtain ⟨u, hu, rfl⟩ := Transition.Outcome.map_eq_moved.mp h
    exact closed_of_update hu (fun y hy => (Rank.receive_eq_some hy).2.2.1) hclosed
  · cases h

theorem closed_of_sendControl (h : s.sendControl r = .moved t)
    (hclosed : (t.rank 0).point = .closed) : (s.rank 0).point = .closed := by
  rw [sendControl] at h
  split at h
  · rename_i m pending hpoint
    cases h
    obtain hr | hne := eq_or_ne r 0
    · subst hr
      rw [rank_sendToOthers_self] at hclosed
      cases hclosed
    · rw [rank_sendToOthers_ne hne.symm] at hclosed
      exact hclosed
  · cases h
    apply closed_of_setPoint ?_ hclosed
    split <;> exact RankPoint.noConfusion
  · cases h

/-- The aggregator stops when it has waited for the final frames, and in no other step. -/
theorem closed_step (h : step e s = .moved t) (hclosed : (t.rank 0).point = .closed) :
    (s.rank 0).point = .closed ∨
      ∃ expired, e = .await expired ∧
        ¬ (1 < n + 1 ∧ s.finalFramesReceived < n + 1 ∧ expired = false) := by
  cases e with
  | setIntervalMs r intervalMs =>
    cases h
    exact Or.inl (closed_of_setHub hclosed)
  | applyControlFromClient kind value now =>
    rw [step, applyControlFromClient] at h
    split at h
    · cases h
    · split at h
      · split at h <;> cases h <;> exact Or.inl hclosed
      · cases h
        exact Or.inl (closed_of_setHub hclosed)
  | client =>
    rw [step, clientStep] at h
    split at h
    · cases h
    all_goals
      cases h
      exact Or.inl (closed_of_setHub hclosed)
  | deliverControl r =>
    exact Or.inl (closed_of_update h (fun y hy => point_deliverControl hy) hclosed)
  | tickIfDue r =>
    rw [step, tickIfDue] at h
    split at h
    · cases h
      exact Or.inl (closed_of_setPoint RankPoint.noConfusion hclosed)
    · cases h
  | tryRecvControl r =>
    rw [step, tryRecvControl] at h
    split at h
    · rename_i hcontrols
      cases h
      obtain ⟨rfl, hpoint⟩ | hpoint := closed_of_set hclosed
      · rw [Rank.tryRecvControl] at hpoint
        split at hpoint
        · exact Or.inl hpoint
        · cases hpoint
      · exact Or.inl hpoint
    · cases h
  | exchangeDue r =>
    rw [step, exchangeDue] at h
    split at h
    · cases h
      obtain ⟨_, hpoint⟩ | hpoint := closed_of_set hclosed
      · cases hpoint
      · exact Or.inl hpoint
    · cases h
  | emit r now measured =>
    rw [step, emit] at h
    split at h
    · split at h
      · cases h
        obtain ⟨_, hpoint⟩ | hpoint := closed_of_set hclosed
        · cases hpoint
        · exact Or.inl hpoint
      · cases h
        exact Or.inl (closed_of_setPoint RankPoint.noConfusion hclosed)
    · cases h
  | swapFanout r =>
    rw [step, swapFanout] at h
    split at h
    · cases h
      obtain ⟨_, hpoint⟩ | hpoint := closed_of_set hclosed
      · cases hpoint
      · exact Or.inl hpoint
    · cases h
  | sendControl r => exact Or.inl (closed_of_sendControl h hclosed)
  | drainInboundFrames now =>
    rw [step, drainInboundFrames] at h
    split at h
    · split at h
      · cases h
        exact Or.inl (closed_of_setPoint RankPoint.noConfusion hclosed)
      · cases h
        exact Or.inl (closed_of_setPoint RankPoint.noConfusion hclosed)
    · cases h
  | deliver r tag =>
    exact Or.inl (closed_of_update h (fun y hy => (Rank.deliver_eq_some hy).2.2.2.1) hclosed)
  | receive r => exact Or.inl (closed_of_receive h hclosed)
  | probe =>
    rw [step, probe] at h
    split at h
    · split at h
      · cases h
        exact Or.inl (closed_of_setPoint RankPoint.noConfusion hclosed)
      · cases h
    · rename_i closing hpoll
      split at h
      · cases h
        refine Or.inl (closed_of_setPoint ?_ hclosed)
        cases closing
        · exact RankPoint.noConfusion
        · exact RankPoint.noConfusion
      · cases h
    · cases h
  | shutdown r measured =>
    rw [step, shutdown] at h
    split at h
    · cases h
      obtain ⟨rfl, hpoint⟩ | hpoint := closed_of_set hclosed
      · cases hpoint
      · exact Or.inl hpoint
    · cases h
  | await expired =>
    rw [step, await] at h
    split at h
    · split at h
      · cases h
        exact Or.inl (closed_of_setPoint RankPoint.noConfusion hclosed)
      · rename_i hdone
        exact Or.inr ⟨expired, rfl, hdone⟩
    · cases h

/-- The aggregator finds that its time is up. -/
def expires : CollectionEvent n → Bool
  | .await expired => expired
  | _ => false

/-- The steps are timely and the aggregator does not run out of time. -/
def Patient (s : Collection n) (e : CollectionEvent n) : Prop := s.Timely e ∧ expires e = false

instance (s : Collection n) (e : CollectionEvent n) : Decidable (s.Patient e) := by
  unfold Patient
  infer_instance

theorem collected_of_closed (hn : 0 < n) (h : (collectionMachine n).ReachableWhere Patient s)
    (hclosed : (s.rank 0).point = .closed) (r : Fin (n + 1)) : (s.rank r).Collected := by
  have hall : (s.rank 0).point = .closed → s.collected = Finset.univ := by
    apply h.invariant (I := fun s => (s.rank 0).point = .closed → s.collected = Finset.univ)
    · rintro s ⟨isSentinel, rfl⟩ hclosed
      cases hclosed
    · intro s e t hs hdone hpatient ht hclosed
      replace ht : step e s = .moved t := ht
      have hsubset := collected_subset (ending_of_reachable hs) ht
      apply Finset.eq_univ_iff_forall.mpr
      intro r
      apply hsubset
      obtain hbefore | ⟨expired, rfl, hstops⟩ := closed_step ht hclosed
      · rw [hdone hbefore]
        exact Finset.mem_univ r
      · have hle : n + 1 ≤ s.collected.card := by
          rw [← finalFramesReceived_eq hs]
          by_contra hlt
          exact hstops ⟨Nat.succ_lt_succ hn, Nat.lt_of_not_le hlt, hpatient.2⟩
        have hcard : s.collected.card = Fintype.card (Fin (n + 1)) := by
          apply Nat.le_antisymm (Finset.card_le_univ _)
          rw [Fintype.card_fin]
          exact hle
        rw [(Finset.card_eq_iff_eq_univ _).mp hcard]
        exact Finset.mem_univ r
  rw [← mem_collected, hall hclosed]
  exact Finset.mem_univ r

/-- The other rank stops first, and its final frame arrives in the second poll of the
aggregator. -/
def collectsFinalFrames (aggregator other : Fin 2) : List (CollectionEvent 1) :=
  otherTicks 600 ++
    [.shutdown other .zero, .shutdown aggregator .zero, .deliver other .WORKER_FRAME,
      .receive other, .probe, .deliver aggregator .FINAL_WORKER_FRAME, .receive aggregator,
      .probe, .await false, .probe, .deliver other .FINAL_WORKER_FRAME, .receive other, .probe,
      .await false]

end Collection

end Gempba.Telemetry
