import Gempba.Schedulers.HubRecords
import Gempba.Schedulers.ScoredRun
import Mathlib.Algebra.Group.Action.Defs
import Mathlib.Algebra.Order.BigOperators.Group.Finset
import Mathlib.Data.Nat.ModEq

/-!
# The tasks of a run in the frames of its ranks

The frames of all ranks, taken together, account for the tasks of the run. As
long as tasks are in flight the frames are of one moment; once the center has
left its loop each rank may take its frame when it likes.
-/

namespace Gempba

set_option autoImplicit false

open Transition
open Telemetry (Counters FrameEdgeCounter FrameReadings HubCounters Listed WorkerFrame)

variable {W : World}

/-! ## A frame and the counters behind it -/

def LeadsTo (r : Rank W) (e : FrameEdgeCounter) : Prop := e.dstWorkerId.toNat = r.val

instance (r : Rank W) : DecidablePred (LeadsTo r) :=
  fun e => inferInstanceAs (Decidable (e.dstWorkerId.toNat = r.val))

/-- The tasks that a frame says its rank has sent to `r`. -/
def framedCount (r : Rank W) (f : WorkerFrame) : ℕ :=
  tally (·.count.toNat) (LeadsTo r) f.edgesOut

def framedBytes (r : Rank W) (f : WorkerFrame) : ℕ :=
  tally (·.bytes.toNat) (LeadsTo r) f.edgesOut

/-- The frame shows the counters, as far as 64 bits go. -/
structure Shows (c : Counters (Rank W)) (f : WorkerFrame) : Prop where
  tasksSent : f.tasksSentTotal.toNat = c.tasksSentTotal % 2 ^ 64
  tasksRecv : f.tasksRecvTotal.toNat = c.tasksRecvTotal % 2 ^ 64
  bytesSent : f.bytesSentTotal.toNat = c.bytesSentTotal % 2 ^ 64
  bytesRecv : f.bytesRecvTotal.toNat = c.bytesRecvTotal % 2 ^ 64
  listed : Listed W.size f.edgesOut
  counts : ∀ q, framedCount q f = (c.edgesOut q).count % 2 ^ 64
  bytes : ∀ q, framedBytes q f =
    if (c.edgesOut q).count % 2 ^ 64 ≠ 0 then (c.edgesOut q).bytes % 2 ^ 64 else 0

theorem uint64_ofNat_ne_zero {k : ℕ} : UInt64.ofNat k ≠ 0 ↔ k % 2 ^ 64 ≠ 0 := by
  rw [Ne, ← UInt64.toNat_inj, UInt64.toNat_ofNat']
  rfl

theorem Telemetry.Keeps.shows (hsize : W.size ≤ 2 ^ 32) {c : Counters (Gempba.Rank W)}
    {h : HubCounters} (hkeeps : Keeps c h) (rank : UInt32) (hub : Hub) (x : FrameReadings) :
    Shows c (h.snapshotWorkerFrame rank hub x) := by
  have htraffic := HubCounters.traffic_snapshotWorkerFrame rank hub x h
  have hlength : h.edgesOut.length = W.size := by rw [hkeeps.edgesOut, List.length_ofFn]
  have hedge : ∀ (weight : FrameEdgeCounter → ℕ) (q : Gempba.Rank W),
      tally weight (LeadsTo q) (h.snapshotWorkerFrame rank hub x).edgesOut =
        if (c.edgesOut q).count % 2 ^ 64 ≠ 0 then
          weight ⟨UInt32.ofNat q, UInt64.ofNat (c.edgesOut q).bytes,
            UInt64.ofNat (c.edgesOut q).count⟩
        else 0 := by
    intro weight q
    have hq : q.val < h.edgesOut.length := by
      rw [hlength]
      exact q.isLt
    have htally := tally_edgeCounters weight (i := 0) (by omega) hq
    simp only [Nat.zero_add, hkeeps.edgesOut, List.getElem_ofFn] at htally
    rw [htraffic.edgesOut, hkeeps.edgesOut]
    exact htally.trans (if_congr uint64_ofNat_ne_zero rfl rfl)
  constructor
  · rw [htraffic.tasksSent, hkeeps.tasksSent, UInt64.toNat_ofNat']
  · rw [htraffic.tasksRecv, hkeeps.tasksRecv, UInt64.toNat_ofNat']
  · rw [htraffic.bytesSent, hkeeps.bytesSent, UInt64.toNat_ofNat']
  · rw [htraffic.bytesRecv, hkeeps.bytesRecv, UInt64.toNat_ofNat']
  · rw [htraffic.edgesOut, ← hlength]
    exact listed_edgeCounters (by omega)
  · intro q
    rw [framedCount, hedge]
    split
    · exact UInt64.toNat_ofNat'
    · omega
  · intro q
    rw [framedBytes, hedge]
    split
    · exact UInt64.toNat_ofNat'
    · rfl

/-- A frame's edges, all together or rank by rank. -/
theorem sum_leadsTo (weight : FrameEdgeCounter → ℕ) {es : List FrameEdgeCounter}
    (h : ∀ e ∈ es, e.dstWorkerId.toNat < W.size) :
    ∑ r : Rank W, tally weight (LeadsTo r) (es : Multiset FrameEdgeCounter) =
      (es.map weight).sum := by
  induction es with
  | nil => simp
  | cons e es ih =>
    have hrest := ih fun e' he' => h e' (List.mem_cons_of_mem e he')
    have he : ∑ r : Rank W, (if LeadsTo r e then weight e else 0) = weight e := by
      rw [Finset.sum_eq_single ⟨e.dstWorkerId.toNat, h e List.mem_cons_self⟩]
      · exact if_pos rfl
      · intro r _ hr
        exact if_neg fun hleads => hr (Fin.ext hleads.symm)
      · intro hnone
        exact absurd (Finset.mem_univ _) hnone
    simp only [← Multiset.cons_coe, tally_cons, Finset.sum_add_distrib, hrest, he, List.map_cons,
      List.sum_cons]

/-! ## The counters of all ranks -/

/-- What the counters of all ranks sum up to, when the tasks of `tasks` are in flight. -/
structure Balanced (tasks : Multiset (TaskMessage W)) (c : Rank W → Counters (Rank W)) : Prop
    extends Telemetry.Conserved tasks c where
  sentCounts : ∀ r, ∑ q, ((c r).edgesOut q).count = (c r).tasksSentTotal
  sentBytes : ∀ r, ∑ q, ((c r).edgesOut q).bytes = (c r).bytesSentTotal
  unused : ∀ r q, ((c r).edgesOut q).count = 0 → ((c r).edgesOut q).bytes = 0

theorem Accounts.Tallied.balanced {sent received tasks : Multiset (TaskMessage W)}
    {a : Accounts W} (h : a.Tallied sent received) (hsent : sent = received + tasks)
    {c : Rank W → Counters (Rank W)} (hc : ∀ r, (a r).telemetry = some (c r)) :
    Balanced tasks c := by
  have hmem : ∀ r, c r ∈ (a r).telemetry := hc
  have hswap : ∀ (r : Rank W) (weight : TaskMessage W → ℕ),
      ∑ q, tally weight (fun m => m.destination = q ∧ m.source = r) sent =
        tally weight (fun m => m.source = r) sent := by
    intro r weight
    rw [← sum_tally (p := fun m : TaskMessage W => m.source = r) TaskMessage.destination sent]
    refine Finset.sum_congr rfl fun q _ => ?_
    simp only [and_comm]
  refine ⟨(h.conserved hsent).telemetry c hc, ?_, ?_, ?_⟩
  · intro r
    simp only [(h r).edgeCounts _ (hmem r), (h r).tasksSent _ (hmem r)]
    exact hswap r _
  · intro r
    simp only [(h r).edgeBytes _ (hmem r), (h r).bytesSent _ (hmem r)]
    exact hswap r _
  · intro r q hcount
    rw [(h r).edgeCounts _ (hmem r)] at hcount
    rw [(h r).edgeBytes _ (hmem r)]
    exact tally_eq_zero_of_count hcount

/-! ## The frames of all ranks -/

/-- What the frames of all ranks sum up to, as far as `agree` can tell. -/
structure FrameTotals (agree : ℕ → ℕ → Prop) (tasks : Multiset (TaskMessage W))
    (f : Rank W → WorkerFrame) : Prop where
  tasksSent : agree (∑ r, (f r).tasksSentTotal.toNat) (∑ r, (f r).tasksRecvTotal.toNat + tasks.card)
  bytesSent : agree (∑ r, (f r).bytesSentTotal.toNat)
    (∑ r, (f r).bytesRecvTotal.toNat + (tasks.map (·.bundle.size)).sum)
  sentCounts : ∀ r, agree ((f r).edgesOut.map (·.count.toNat)).sum (f r).tasksSentTotal.toNat
  recvCounts : ∀ r, agree (∑ q, framedCount r (f q))
    ((f r).tasksRecvTotal.toNat + tally (fun _ => 1) (fun m => m.destination = r) tasks)

structure FrameBytes (tasks : Multiset (TaskMessage W)) (f : Rank W → WorkerFrame) : Prop where
  sentBytes : ∀ r, ((f r).edgesOut.map (·.bytes.toNat)).sum = (f r).bytesSentTotal.toNat
  recvBytes : ∀ r, ∑ q, framedBytes r (f q) =
    (f r).bytesRecvTotal.toNat + tally (·.bundle.size) (fun m => m.destination = r) tasks

/-- The tasks and bytes that the ranks count can be told from their 64 bits. -/
def Accounts.Fit (a : Accounts W) : Prop :=
  ∀ c : Rank W → Counters (Rank W), (∀ r, (a r).telemetry = some (c r)) →
    ∑ r, (c r).tasksSentTotal < 2 ^ 64 ∧ ∑ r, (c r).bytesSentTotal < 2 ^ 64

/-- The frames account for every task, up to 64 bits or exactly. -/
structure FramesAccount (tasks : Multiset (TaskMessage W)) (a : Accounts W)
    (f : Rank W → WorkerFrame) : Prop where
  listed : ∀ r, Listed W.size (f r).edgesOut
  wrapped : FrameTotals (Nat.ModEq (2 ^ 64)) tasks f
  fitting : a.Fit → FrameTotals Eq tasks f ∧ FrameBytes tasks f

theorem sum_mod_modEq {n : ℕ} (k : Rank W → ℕ) : ∑ r, k r % n ≡ ∑ r, k r [MOD n] :=
  (Finset.sum_nat_mod Finset.univ n k).symm

section Totals

variable {tasks : Multiset (TaskMessage W)} {c : Rank W → Counters (Rank W)}
variable {f : Rank W → WorkerFrame}

theorem Balanced.wrapped (h : Balanced tasks c) (hshows : ∀ r, Shows (c r) (f r)) :
    FrameTotals (Nat.ModEq (2 ^ 64)) tasks f := by
  constructor
  · simp only [(hshows _).tasksSent, (hshows _).tasksRecv]
    refine (sum_mod_modEq _).trans ?_
    rw [h.tasks]
    exact (sum_mod_modEq _).symm.add_right _
  · simp only [(hshows _).bytesSent, (hshows _).bytesRecv]
    refine (sum_mod_modEq _).trans ?_
    rw [h.bytes]
    exact (sum_mod_modEq _).symm.add_right _
  · intro r
    rw [← sum_leadsTo _ (hshows r).listed.inWorld, (hshows r).tasksSent]
    change ∑ q, framedCount q (f r) ≡ _ [MOD _]
    simp only [(hshows r).counts]
    refine (sum_mod_modEq _).trans ?_
    rw [h.sentCounts r]
    exact (Nat.mod_modEq _ _).symm
  · intro r
    simp only [(hshows _).counts, (hshows r).tasksRecv]
    refine (sum_mod_modEq _).trans ?_
    rw [h.edgeCounts r]
    exact (Nat.mod_modEq _ _).symm.add_right _

theorem le_sum (k : Rank W → ℕ) (r : Rank W) : k r ≤ ∑ q, k q :=
  Finset.single_le_sum (fun _ _ => Nat.zero_le _) (Finset.mem_univ r)

/-- Counters that fit are shown as they are. -/
structure ShowsExactly (c : Counters (Rank W)) (f : WorkerFrame) : Prop where
  tasksSent : f.tasksSentTotal.toNat = c.tasksSentTotal
  tasksRecv : f.tasksRecvTotal.toNat = c.tasksRecvTotal
  bytesSent : f.bytesSentTotal.toNat = c.bytesSentTotal
  bytesRecv : f.bytesRecvTotal.toNat = c.bytesRecvTotal
  counts : ∀ q, framedCount q f = (c.edgesOut q).count
  bytes : ∀ q, framedBytes q f = (c.edgesOut q).bytes

theorem Balanced.showsExactly (h : Balanced tasks c) (hshows : ∀ r, Shows (c r) (f r))
    (htasks : ∑ r, (c r).tasksSentTotal < 2 ^ 64) (hbytes : ∑ r, (c r).bytesSentTotal < 2 ^ 64)
    (r : Rank W) : ShowsExactly (c r) (f r) := by
  have hsent : (c r).tasksSentTotal < 2 ^ 64 :=
    Nat.lt_of_le_of_lt (le_sum (fun q => (c q).tasksSentTotal) r) htasks
  have hsentBytes : (c r).bytesSentTotal < 2 ^ 64 :=
    Nat.lt_of_le_of_lt (le_sum (fun q => (c q).bytesSentTotal) r) hbytes
  have hcount : ∀ q, ((c r).edgesOut q).count < 2 ^ 64 := by
    intro q
    have hle := le_sum (fun q => ((c r).edgesOut q).count) q
    rw [h.sentCounts r] at hle
    exact Nat.lt_of_le_of_lt hle hsent
  constructor
  · rw [(hshows r).tasksSent, Nat.mod_eq_of_lt hsent]
  · have hle := le_sum (fun q => (c q).tasksRecvTotal) r
    have hsum := h.tasks
    rw [(hshows r).tasksRecv, Nat.mod_eq_of_lt (by omega)]
  · rw [(hshows r).bytesSent, Nat.mod_eq_of_lt hsentBytes]
  · have hle := le_sum (fun q => (c q).bytesRecvTotal) r
    have hsum := h.bytes
    rw [(hshows r).bytesRecv, Nat.mod_eq_of_lt (by omega)]
  · intro q
    rw [(hshows r).counts q, Nat.mod_eq_of_lt (hcount q)]
  · intro q
    have hle := le_sum (fun q => ((c r).edgesOut q).bytes) q
    rw [h.sentBytes r] at hle
    rw [(hshows r).bytes q, Nat.mod_eq_of_lt (hcount q),
      Nat.mod_eq_of_lt (Nat.lt_of_le_of_lt hle hsentBytes)]
    split
    · rfl
    · rename_i hzero
      exact (h.unused r q (not_not.mp hzero)).symm

theorem Balanced.exact (h : Balanced tasks c) (hlisted : ∀ r, Listed W.size (f r).edgesOut)
    (hshows : ∀ r, ShowsExactly (c r) (f r)) : FrameTotals Eq tasks f ∧ FrameBytes tasks f := by
  constructor
  · constructor
    · simp only [(hshows _).tasksSent, (hshows _).tasksRecv, h.tasks]
    · simp only [(hshows _).bytesSent, (hshows _).bytesRecv, h.bytes]
    · intro r
      rw [← sum_leadsTo _ (hlisted r).inWorld, (hshows r).tasksSent, ← h.sentCounts r]
      exact Finset.sum_congr rfl fun q _ => (hshows r).counts q
    · intro r
      simp only [(hshows _).counts, (hshows r).tasksRecv, h.edgeCounts r]
  · constructor
    · intro r
      rw [← sum_leadsTo _ (hlisted r).inWorld, (hshows r).bytesSent, ← h.sentBytes r]
      exact Finset.sum_congr rfl fun q _ => (hshows r).bytes q
    · intro r
      simp only [(hshows _).bytes, (hshows r).bytesRecv, h.edgeBytes r]

end Totals

/-! ## Frames of a run -/

/-- A frame that rank `r` may take. -/
def Hubs.Frame (h : Hubs W) (r : Rank W) (f : WorkerFrame) : Prop :=
  ∃ c hub x, h r = some c ∧ f = c.snapshotWorkerFrame (UInt32.ofNat r) hub x

section Machine

variable {σ ι : Type} {M : Machine σ ι Fault} {F : Flow M (TaskMessage W)}
variable {seeded : σ → TaskBundle → Prop} {s : (σ × Accounts W) × Hubs W}

theorem exists_of_rel {α β : Type} {R : α → β → Prop} {x : Option α} {b : β}
    (h : Option.Rel R x (some b)) : ∃ a, x = some a ∧ R a b := by
  cases h with
  | some hab => exact ⟨_, rfl, hab⟩

/-- The hubs may have moved on, as long as they keep the accounts of `s`. -/
theorem framesAccount (hsize : W.size ≤ 2 ^ 32)
    (hseed : ∀ s seed, seeded s seed → F.inFlight s = {⟨W.center, W.first, seed⟩})
    (hs : (reportedBy F seeded).Reachable s) {h : Rank W → Hubs W}
    (hkept : ∀ r, Hubs.Kept s.1.2 (h r)) {f : Rank W → WorkerFrame}
    (hf : ∀ r, (h r).Frame r (f r)) : FramesAccount (F.inFlight s.1.1) s.1.2 f := by
  have hcounters : ∀ r, ∃ c, (s.1.2 r).telemetry = some c ∧ Shows c (f r) := by
    intro r
    obtain ⟨k, hub, x, hk, hf⟩ := hf r
    have hrel := hkept r r
    rw [hk] at hrel
    obtain ⟨c, hc, hkeeps⟩ := exists_of_rel hrel
    rw [hf]
    exact ⟨c, hc, hkeeps.shows hsize _ hub x⟩
  choose c hc hshows using hcounters
  obtain ⟨sent, received, hconserved, htallied⟩ :=
    tallied_of_reachable hseed (reportedBy_base hs)
  have hbalanced := htallied.balanced hconserved hc
  refine ⟨fun r => (hshows r).listed, hbalanced.wrapped hshows, fun hfit => ?_⟩
  obtain ⟨htasks, hbytes⟩ := hfit c hc
  exact hbalanced.exact (fun r => (hshows r).listed)
    (hbalanced.showsExactly hshows htasks hbytes)

variable (F seeded) in
/-- Frames of one moment account for the tasks sent, received and in flight; from `exited` on,
frames of any later moments account for the tasks sent and received. -/
structure FramesComplete (exited : σ → Prop) (s : (σ × Accounts W) × Hubs W) : Prop where
  together : ∀ f : Rank W → WorkerFrame, (∀ r, s.2.Frame r (f r)) →
    FramesAccount (F.inFlight s.1.1) s.1.2 f
  apart : exited s.1.1 → ∀ t : Rank W → (σ × Accounts W) × Hubs W,
    (∀ r, Relation.ReflTransGen ((reportedBy F seeded).StepWhere fun _ _ => True) s (t r)) →
    ∀ f : Rank W → WorkerFrame, (∀ r, (t r).2.Frame r (f r)) → FramesAccount 0 s.1.2 f

theorem framesComplete {exited : σ → Prop} (hquiet : Quiet F exited) (hsize : W.size ≤ 2 ^ 32)
    (hseed : ∀ s seed, seeded s seed → F.inFlight s = {⟨W.center, W.first, seed⟩})
    (hs : (reportedBy F seeded).Reachable s) : FramesComplete F seeded exited s := by
  constructor
  · intro f hf
    exact framesAccount hsize hseed hs (fun _ => kept_of_reachable hsize hs) hf
  · intro hexited t ht f hf
    have hbase : M.Reachable s.1.1 := accountedBy_base (reportedBy_base hs)
    rw [← hquiet.inFlight _ hbase hexited]
    refine framesAccount hsize hseed hs (fun r => ?_) hf
    obtain ⟨htr, _, hsame⟩ := hquiet.accounts_stay hs hexited (ht r)
    rw [← hsame]
    exact kept_of_reachable hsize htr

end Machine

/-! ## Both schedulers -/

theorem Effect.Follows.stays_out {e : Effect W} {o o' : Outline W} (h : e.Follows o o')
    (hexit : o.centerPhase ≠ .receiving) : o'.centerPhase ≠ .receiving := by
  have hcenter : ∀ {o o' : Outline W}, CenterMove o o' → o.centerPhase ≠ .receiving →
      o'.centerPhase ≠ .receiving := by
    intro o o' hmove hexit
    cases hmove with
    | stay => exact hexit
    | exit hphase hidle =>
      intro hreceiving
      cases hreceiving
    | collect hphase =>
      intro hreceiving
      cases hreceiving
    | hear w r hphase hmem => exact nextPhase_ne_receiving w
  cases e with
  | nothing => rwa [h]
  | push w => rwa [h]
  | enter w => exact absurd h.2.1 hexit
  | leave w =>
    rw [h.2]
    exact hexit
  | terminate w =>
    rw [h.2.2]
    exact hexit
  | report w r =>
    rw [h.2]
    exact hexit
  | center => exact hcenter h hexit
  | proposal => exact hcenter h hexit

theorem SemiCentralized.quiet_flow (W : World) :
    Quiet (SemiCentralized.flow W) fun s => s.centerPhase ≠ .receiving := by
  constructor
  · intro s e t hs hexit hst
    have hinv := SemiCentralized.invariant_of_reachable hs
    exact (SemiCentralized.follows hinv hst).stays_out hexit
  · intro s hs hexit
    exact ((SemiCentralized.invariant_of_reachable hs).sound.quiet hexit).no_task

theorem Centralized.quiet_flow (W : World) :
    Quiet (Centralized.flow W) fun s => s.centerPhase ≠ .receiving := by
  constructor
  · intro s e t hs hexit hst
    have hinv := Centralized.invariant_of_reachable hs
    exact (Centralized.follows hinv hst).stays_out hexit
  · intro s hs hexit
    exact ((Centralized.invariant_of_reachable hs).sound.quiet hexit).no_task

theorem frames_accountForTasks (W : World) (hsize : W.size ≤ 2 ^ 32) :
    (∀ s, (SemiCentralized.reported W).Reachable s →
      FramesComplete (SemiCentralized.flow W) (fun s seed => s = SemiCentralized.sendSeed seed)
        (fun s => s.centerPhase ≠ .receiving) s) ∧
    ∀ s, (Centralized.reported W).Reachable s →
      FramesComplete (Centralized.flow W) (fun s seed => s = Centralized.sendSeed seed)
        (fun s => s.centerPhase ≠ .receiving) s := by
  constructor
  · intro s hs
    refine framesComplete (SemiCentralized.quiet_flow W) hsize (fun s seed hseed => ?_) hs
    rw [hseed]
    rfl
  · intro s hs
    refine framesComplete (Centralized.quiet_flow W) hsize (fun s seed hseed => ?_) hs
    rw [hseed]
    rfl

/-- What each step of `oneTask` sends. -/
def sentInOneTask : Centralized.Event .pair → List (TaskMessage .pair)
  | .send w => [⟨w, World.center _, ⟨[5], 1⟩⟩]
  | .center (.state w .AVAILABLE_STATE) _ => [⟨World.center _, w, ⟨[5], 1⟩⟩]
  | _ => []

def oneTaskReported : List (HubEvent .pair (Centralized.Event .pair)) :=
  Centralized.oneTask.map fun e =>
    .process e ((Centralized.receives e).map (·, 1200)) ((sentInOneTask e).map (·, 800))

theorem frames_accountForTasks_oneTask : ∃ s,
    (Centralized.reported .pair).run oneTaskReported
      ((Centralized.sendSeed ⟨[7], 3⟩, (Accounts.initial fun _ => true).sendSeed ⟨[7], 3⟩),
        (Hubs.initial fun _ => true).recordSend (⟨World.center _, World.first _, ⟨[7], 3⟩⟩, 900)) =
          some s ∧
      (∀ r, ∃ f, s.2.Frame r f) ∧
      ∀ f : Rank .pair → WorkerFrame, (∀ r, s.2.Frame r (f r)) →
        ∑ r, (f r).tasksSentTotal.toNat = ∑ r, (f r).tasksRecvTotal.toNat := by
  have hrun : ∃ s, (Centralized.reported .pair).run oneTaskReported
      ((Centralized.sendSeed ⟨[7], 3⟩, (Accounts.initial fun _ => true).sendSeed ⟨[7], 3⟩),
        (Hubs.initial fun _ => true).recordSend (⟨World.center _, World.first _, ⟨[7], 3⟩⟩, 900)) =
          some s ∧ s.1.1.centerPhase = .barrier ∧ (∀ r, (s.2 r).isSome = true) ∧
        (∀ r, ((s.1.2 r).telemetry.map (·.tasksSentTotal)).getD 0 ≤ 2) ∧
        ∀ r, ((s.1.2 r).telemetry.map (·.bytesSentTotal)).getD 0 ≤ 2 :=
    ⟨_, rfl, rfl, by decide, by decide, by decide⟩
  obtain ⟨s, hs, hphase, hinstalled, htasks, hbytes⟩ := hrun
  have hstart : (Centralized.reported .pair).Reachable
      ((Centralized.sendSeed ⟨[7], 3⟩, (Accounts.initial fun _ => true).sendSeed ⟨[7], 3⟩),
        (Hubs.initial fun _ => true).recordSend (⟨World.center _, World.first _, ⟨[7], 3⟩⟩, 900)) :=
    .start ⟨⟨_, rfl⟩, _, _, _, rfl, rfl, rfl⟩
  have hcomplete := (frames_accountForTasks .pair (by decide)).2 s (hstart.run hs)
  have hexit : s.1.1.centerPhase ≠ .receiving := by
    rw [hphase]
    decide
  refine ⟨s, hs, fun r => ?_, fun f hf => ?_⟩
  · obtain ⟨c, hc⟩ := Option.isSome_iff_exists.mp (hinstalled r)
    exact ⟨_, c, .initial false, ⟨0, 0, 0, 0, none, none⟩, hc, rfl⟩
  · have hbound : ∀ k : Rank .pair → ℕ, (∀ r, k r ≤ 2) → ∑ r, k r < 2 ^ 64 := by
      intro k hk
      have hle : ∑ r, k r ≤ (Finset.univ : Finset (Rank .pair)).card • 2 :=
        Finset.sum_le_card_nsmul Finset.univ k 2 fun r _ => hk r
      have hcard : (Finset.univ : Finset (Rank .pair)).card = 2 := rfl
      rw [hcard, smul_eq_mul] at hle
      omega
    have hfit : Accounts.Fit s.1.2 := by
      intro c hc
      constructor
      · refine hbound _ fun r => ?_
        have hr := htasks r
        rwa [hc r] at hr
      · refine hbound _ fun r => ?_
        have hr := hbytes r
        rwa [hc r] at hr
    have hframes := hcomplete.apart hexit (fun _ => s) (fun _ => .refl) f hf
    simpa using (hframes.fitting hfit).1.tasksSent

end Gempba
