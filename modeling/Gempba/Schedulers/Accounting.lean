import Gempba.Library.Extension
import Gempba.Schedulers.Traffic

/-!
# What the ranks count of the tasks they send and receive

Each rank has its statistics and, when telemetry was installed before the run,
the counters of its hub. Both are updated at the sites that send a task and at
those that receive one. The sender counts the size of the bundle, the receiver
the bytes of the message.
-/

namespace Gempba

set_option autoImplicit false

open Transition

namespace Telemetry

structure EdgeCounter where
  bytes : ℕ
  count : ℕ
  deriving DecidableEq, Repr

/-- The counters of a hub that a task changes; the edges have a slot for each rank. -/
structure Counters (ρ : Type) where
  tasksSentTotal : ℕ
  tasksRecvTotal : ℕ
  bytesSentTotal : ℕ
  bytesRecvTotal : ℕ
  edgesOut : ρ → EdgeCounter

namespace Counters

variable {ρ : Type} [DecidableEq ρ]

def initial : Counters ρ := ⟨0, 0, 0, 0, fun _ => ⟨0, 0⟩⟩

def recordSend (dstRank : ρ) (bytes : ℕ) (c : Counters ρ) : Counters ρ :=
  let edge := c.edgesOut dstRank
  { c with
    edgesOut := Function.update c.edgesOut dstRank ⟨edge.bytes + bytes, edge.count + 1⟩
    tasksSentTotal := c.tasksSentTotal + 1
    bytesSentTotal := c.bytesSentTotal + bytes }

/-- The source is not looked at. -/
def recordRecv (_source : ρ) (bytes : ℕ) (c : Counters ρ) : Counters ρ :=
  { c with
    tasksRecvTotal := c.tasksRecvTotal + 1
    bytesRecvTotal := c.bytesRecvTotal + bytes }

end Counters

end Telemetry

open Telemetry (Counters)

def TaskBundle.size (b : TaskBundle) : ℕ := b.packet.length

variable {W : World}

structure Account (W : World) where
  sentTaskCount : ℕ
  receivedTaskCount : ℕ
  telemetry : Option (Counters (Rank W))

namespace Account

/-- What follows the send of a task, in `send_seed`, `task_funneling` and `clear_buffer`. -/
def countSend (destination : Rank W) (bundle : TaskBundle) (a : Account W) : Account W :=
  { a with
    sentTaskCount := a.sentTaskCount + 1
    telemetry := a.telemetry.map (·.recordSend destination bundle.size) }

/-- What follows the receipt of `count` bytes, in `process_message` and
`process_task_for_center`. -/
def countReceive (source : Rank W) (count : ℕ) (a : Account W) : Account W :=
  { a with
    receivedTaskCount := a.receivedTaskCount + 1
    telemetry := a.telemetry.map (·.recordRecv source count) }

end Account

abbrev Accounts (W : World) := Rank W → Account W

namespace Accounts

def initial (installed : Rank W → Bool) : Accounts W :=
  fun r => ⟨0, 0, if installed r then some .initial else none⟩

def countSend (m : TaskMessage W) (a : Accounts W) : Accounts W :=
  Function.update a m.source ((a m.source).countSend m.destination m.bundle)

def countReceive (m : TaskMessage W) (a : Accounts W) : Accounts W :=
  Function.update a m.destination ((a m.destination).countReceive m.source m.bundle.packet.length)

def sendSeed (seed : TaskBundle) : Accounts W → Accounts W :=
  countSend ⟨W.center, W.first, seed⟩

end Accounts

section Machine

variable {σ ι : Type} {M : Machine σ ι Fault}

/-- A scheduler whose ranks keep accounts; `seeded` says which seed a run starts from. -/
def accountedBy (F : Flow M (TaskMessage W)) (seeded : σ → TaskBundle → Prop) :
    Machine (σ × Accounts W) (ι × Unit) Fault :=
  M.extend
    (fun s a => ∃ seed installed, seeded s seed ∧ a = (Accounts.initial installed).sendSeed seed)
    fun _ l s t a =>
      .moved ((F.sends l s t).foldr Accounts.countSend
        ((F.receives l).foldr Accounts.countReceive a))

end Machine

def SemiCentralized.accounted (W : World) :=
  accountedBy (SemiCentralized.flow W) fun s seed => s = SemiCentralized.sendSeed seed

def Centralized.accounted (W : World) :=
  accountedBy (Centralized.flow W) fun s seed => s = Centralized.sendSeed seed

/-! ## The accounts as totals over the history -/

/-- The account of `r` after the tasks of `sent` were sent and those of `received` received. -/
structure Account.Tallies (r : Rank W) (sent received : Multiset (TaskMessage W))
    (a : Account W) : Prop where
  sentTaskCount : a.sentTaskCount = tally (fun _ => 1) (fun m => m.source = r) sent
  receivedTaskCount : a.receivedTaskCount =
    tally (fun _ => 1) (fun m => m.destination = r) received
  tasksSent : ∀ c ∈ a.telemetry,
    c.tasksSentTotal = tally (fun _ => 1) (fun m => m.source = r) sent
  bytesSent : ∀ c ∈ a.telemetry,
    c.bytesSentTotal = tally (·.bundle.size) (fun m => m.source = r) sent
  tasksRecv : ∀ c ∈ a.telemetry,
    c.tasksRecvTotal = tally (fun _ => 1) (fun m => m.destination = r) received
  bytesRecv : ∀ c ∈ a.telemetry,
    c.bytesRecvTotal = tally (·.bundle.size) (fun m => m.destination = r) received
  edgeCounts : ∀ c ∈ a.telemetry, ∀ q, (c.edgesOut q).count =
    tally (fun _ => 1) (fun m => m.destination = q ∧ m.source = r) sent
  edgeBytes : ∀ c ∈ a.telemetry, ∀ q, (c.edgesOut q).bytes =
    tally (·.bundle.size) (fun m => m.destination = q ∧ m.source = r) sent

namespace Account.Tallies

variable {r : Rank W} {sent received : Multiset (TaskMessage W)} {a : Account W}

theorem initial (r : Rank W) (installed : Rank W → Bool) :
    (Accounts.initial installed r).Tallies r 0 0 := by
  have hinitial : ∀ c ∈ (Accounts.initial installed r).telemetry, c = .initial := by
    intro c hc
    cases hr : installed r with
    | true => simpa [Accounts.initial, hr] using hc.symm
    | false => simp [Accounts.initial, hr] at hc
  constructor
  · rfl
  · rfl
  all_goals
    intro c hc
    obtain rfl := hinitial c hc
    simp [Counters.initial]

theorem send_other (h : a.Tallies r sent received) {m : TaskMessage W} (hm : m.source ≠ r) :
    a.Tallies r (m ::ₘ sent) received := by
  constructor
  · rw [h.sentTaskCount, tally_cons, if_neg hm, zero_add]
  · exact h.receivedTaskCount
  · intro c hc
    rw [h.tasksSent c hc, tally_cons, if_neg hm, zero_add]
  · intro c hc
    rw [h.bytesSent c hc, tally_cons, if_neg hm, zero_add]
  · exact h.tasksRecv
  · exact h.bytesRecv
  · intro c hc q
    rw [h.edgeCounts c hc, tally_cons, if_neg fun hq => hm hq.2, zero_add]
  · intro c hc q
    rw [h.edgeBytes c hc, tally_cons, if_neg fun hq => hm hq.2, zero_add]

theorem receive_other (h : a.Tallies r sent received) {m : TaskMessage W}
    (hm : m.destination ≠ r) : a.Tallies r sent (m ::ₘ received) := by
  constructor
  · exact h.sentTaskCount
  · rw [h.receivedTaskCount, tally_cons, if_neg hm, zero_add]
  · exact h.tasksSent
  · exact h.bytesSent
  · intro c hc
    rw [h.tasksRecv c hc, tally_cons, if_neg hm, zero_add]
  · intro c hc
    rw [h.bytesRecv c hc, tally_cons, if_neg hm, zero_add]
  · exact h.edgeCounts
  · exact h.edgeBytes

theorem countSend {m : TaskMessage W} (h : a.Tallies m.source sent received) :
    (a.countSend m.destination m.bundle).Tallies m.source (m ::ₘ sent) received := by
  constructor
  · rw [tally_cons, if_pos rfl, ← h.sentTaskCount, add_comm]
    rfl
  · exact h.receivedTaskCount
  all_goals
    intro c hc
    obtain ⟨d, hd, rfl⟩ := Option.mem_map.mp hc
  · rw [tally_cons, if_pos rfl, ← h.tasksSent d hd, add_comm]
    rfl
  · rw [tally_cons, if_pos rfl, ← h.bytesSent d hd, add_comm]
    rfl
  · exact h.tasksRecv d hd
  · exact h.bytesRecv d hd
  · intro q
    rw [tally_cons, ← h.edgeCounts d hd]
    obtain rfl | hq := eq_or_ne q m.destination
    · rw [if_pos ⟨rfl, rfl⟩, add_comm]
      simp [Counters.recordSend]
    · rw [if_neg fun he => hq he.1.symm, zero_add]
      simp [Counters.recordSend, Function.update_of_ne hq]
  · intro q
    rw [tally_cons, ← h.edgeBytes d hd]
    obtain rfl | hq := eq_or_ne q m.destination
    · rw [if_pos ⟨rfl, rfl⟩, add_comm]
      simp [Counters.recordSend]
    · rw [if_neg fun he => hq he.1.symm, zero_add]
      simp [Counters.recordSend, Function.update_of_ne hq]

theorem countReceive {m : TaskMessage W} (h : a.Tallies m.destination sent received) :
    (a.countReceive m.source m.bundle.packet.length).Tallies m.destination sent
      (m ::ₘ received) := by
  constructor
  · exact h.sentTaskCount
  · rw [tally_cons, if_pos rfl, ← h.receivedTaskCount, add_comm]
    rfl
  all_goals
    intro c hc
    obtain ⟨d, hd, rfl⟩ := Option.mem_map.mp hc
  · exact h.tasksSent d hd
  · exact h.bytesSent d hd
  · rw [tally_cons, if_pos rfl, ← h.tasksRecv d hd, add_comm]
    rfl
  · rw [tally_cons, if_pos rfl, ← h.bytesRecv d hd, add_comm]
    rfl
  · exact h.edgeCounts d hd
  · exact h.edgeBytes d hd

end Account.Tallies

namespace Accounts

variable {sent received : Multiset (TaskMessage W)} {a : Accounts W}

def Tallied (sent received : Multiset (TaskMessage W)) (a : Accounts W) : Prop :=
  ∀ r, (a r).Tallies r sent received

theorem Tallied.countSend (h : a.Tallied sent received) (m : TaskMessage W) :
    (a.countSend m).Tallied (m ::ₘ sent) received := by
  intro r
  obtain rfl | hr := eq_or_ne r m.source
  · rw [Accounts.countSend, Function.update_self]
    exact (h m.source).countSend
  · rw [Accounts.countSend, Function.update_of_ne hr]
    exact (h r).send_other hr.symm

theorem Tallied.countReceive (h : a.Tallied sent received) (m : TaskMessage W) :
    (a.countReceive m).Tallied sent (m ::ₘ received) := by
  intro r
  obtain rfl | hr := eq_or_ne r m.destination
  · rw [Accounts.countReceive, Function.update_self]
    exact (h m.destination).countReceive
  · rw [Accounts.countReceive, Function.update_of_ne hr]
    exact (h r).receive_other hr.symm

theorem Tallied.countSends (h : a.Tallied sent received) (ms : List (TaskMessage W)) :
    Tallied ((ms : Multiset (TaskMessage W)) + sent) received (ms.foldr Accounts.countSend a) := by
  induction ms with
  | nil => simpa using h
  | cons m ms ih =>
    rw [List.foldr_cons, ← Multiset.cons_coe, Multiset.cons_add]
    exact ih.countSend m

theorem Tallied.countReceives (h : a.Tallied sent received) (ms : List (TaskMessage W)) :
    Tallied sent ((ms : Multiset (TaskMessage W)) + received)
      (ms.foldr Accounts.countReceive a) := by
  induction ms with
  | nil => simpa using h
  | cons m ms ih =>
    rw [List.foldr_cons, ← Multiset.cons_coe, Multiset.cons_add]
    exact ih.countReceive m

end Accounts

theorem tallied_of_reachable {σ ι : Type} {M : Machine σ ι Fault} {F : Flow M (TaskMessage W)}
    {seeded : σ → TaskBundle → Prop}
    (hseed : ∀ s seed, seeded s seed → F.inFlight s = {⟨W.center, W.first, seed⟩})
    {s : σ × Accounts W} (h : (accountedBy F seeded).Reachable s) :
    ∃ sent received, F.Conserved s.1 sent received ∧ s.2.Tallied sent received := by
  refine Machine.ReachableWhere.extension
    (I := fun s a => ∃ sent received, F.Conserved s sent received ∧
      Accounts.Tallied sent received a) ?_ ?_ h
  · rintro s a _ ⟨seed, installed, hseeded, rfl⟩
    have hinitial : (Accounts.initial installed : Accounts W).Tallied 0 0 := fun r =>
      Account.Tallies.initial r installed
    refine ⟨_, 0, ?_, hinitial.countSend ⟨W.center, W.first, seed⟩⟩
    rw [Flow.Conserved, hseed s seed hseeded, zero_add]
    rfl
  · rintro s a l _ t b _ ⟨sent, received, hconserved, htallied⟩ hst hreact
    cases hreact
    exact ⟨_, _, hconserved.step hst,
      (htallied.countReceives (F.receives l)).countSends (F.sends l s t)⟩

/-! ## Conservation -/

/-- The totals when the tasks of `inFlight` are in flight. -/
structure Telemetry.Conserved (inFlight : Multiset (TaskMessage W))
    (c : Gempba.Rank W → Counters (Gempba.Rank W)) : Prop where
  tasks : ∑ r, (c r).tasksSentTotal = ∑ r, (c r).tasksRecvTotal + inFlight.card
  bytes : ∑ r, (c r).bytesSentTotal =
    ∑ r, (c r).bytesRecvTotal + (inFlight.map (·.bundle.size)).sum
  edgeCounts : ∀ r, ∑ q, ((c q).edgesOut r).count =
    (c r).tasksRecvTotal + tally (fun _ => 1) (fun m => m.destination = r) inFlight
  edgeBytes : ∀ r, ∑ q, ((c q).edgesOut r).bytes =
    (c r).bytesRecvTotal + tally (·.bundle.size) (fun m => m.destination = r) inFlight

structure Accounts.Conserved (inFlight : Multiset (TaskMessage W)) (a : Accounts W) : Prop where
  stats : ∑ r, (a r).sentTaskCount = ∑ r, (a r).receivedTaskCount + inFlight.card
  telemetry : ∀ c : Rank W → Counters (Rank W), (∀ r, (a r).telemetry = some (c r)) →
    Telemetry.Conserved inFlight c

/-- The totals when nothing is in flight. -/
structure Telemetry.Settled (c : Gempba.Rank W → Counters (Gempba.Rank W)) : Prop where
  tasks : ∑ r, (c r).tasksSentTotal = ∑ r, (c r).tasksRecvTotal
  bytes : ∑ r, (c r).bytesSentTotal = ∑ r, (c r).bytesRecvTotal
  edgeCounts : ∀ r, ∑ q, ((c q).edgesOut r).count = (c r).tasksRecvTotal
  edgeBytes : ∀ r, ∑ q, ((c q).edgesOut r).bytes = (c r).bytesRecvTotal

structure Accounts.Settled (a : Accounts W) : Prop where
  stats : ∑ r, (a r).sentTaskCount = ∑ r, (a r).receivedTaskCount
  telemetry : ∀ c : Rank W → Counters (Rank W), (∀ r, (a r).telemetry = some (c r)) →
    Telemetry.Settled c

theorem Accounts.Tallied.conserved {sent received tasks : Multiset (TaskMessage W)}
    {a : Accounts W} (h : a.Tallied sent received) (hsent : sent = received + tasks) :
    a.Conserved tasks := by
  have hcount : ∀ ms : Multiset (TaskMessage W), (ms.map fun _ => 1).sum = ms.card := by
    intro ms
    simp
  constructor
  · simp only [(h _).sentTaskCount, (h _).receivedTaskCount, sum_tally_key, hcount]
    rw [hsent, Multiset.card_add]
  · intro c hc
    have hmem : ∀ r, c r ∈ (a r).telemetry := hc
    constructor
    · simp only [(h _).tasksSent _ (hmem _), (h _).tasksRecv _ (hmem _), sum_tally_key, hcount]
      rw [hsent, Multiset.card_add]
    · simp only [(h _).bytesSent _ (hmem _), (h _).bytesRecv _ (hmem _), sum_tally_key]
      rw [hsent, Multiset.map_add, Multiset.sum_add]
    · intro r
      simp only [(h _).edgeCounts _ (hmem _), (h _).tasksRecv _ (hmem _), sum_tally]
      rw [hsent, tally_add]
    · intro r
      simp only [(h _).edgeBytes _ (hmem _), (h _).bytesRecv _ (hmem _), sum_tally]
      rw [hsent, tally_add]

theorem Accounts.Conserved.settled {a : Accounts W} (h : a.Conserved 0) : a.Settled := by
  constructor
  · simpa using h.stats
  · intro c hc
    have htelemetry := h.telemetry c hc
    constructor
    · simpa using htelemetry.tasks
    · simpa using htelemetry.bytes
    · intro r
      simpa using htelemetry.edgeCounts r
    · intro r
      simpa using htelemetry.edgeBytes r

theorem accountedBy_base {σ ι : Type} {M : Machine σ ι Fault} {F : Flow M (TaskMessage W)}
    {seeded : σ → TaskBundle → Prop} {s : σ × Accounts W}
    (h : (accountedBy F seeded).Reachable s) : M.Reachable s.1 :=
  Machine.ReachableWhere.base h

theorem SemiCentralized.accounts_conserved {s : SemiCentralized.State W × Accounts W}
    (h : (SemiCentralized.accounted W).Reachable s) : s.2.Conserved s.1.network.tasks := by
  obtain ⟨sent, received, hconserved, htallied⟩ :=
    tallied_of_reachable (fun s seed hs => by rw [hs]; rfl) h
  exact htallied.conserved hconserved

theorem Centralized.accounts_conserved {s : Centralized.State W × Accounts W}
    (h : (Centralized.accounted W).Reachable s) : s.2.Conserved s.1.network.tasks := by
  obtain ⟨sent, received, hconserved, htallied⟩ :=
    tallied_of_reachable (fun s seed hs => by rw [hs]; rfl) h
  exact htallied.conserved hconserved

theorem tasks_accounted (W : World) :
    (∀ s : SemiCentralized.State W × Accounts W, (SemiCentralized.accounted W).Reachable s →
      s.2.Conserved s.1.network.tasks ∧ (s.1.centerPhase ≠ .receiving → s.2.Settled)) ∧
    ∀ s : Centralized.State W × Accounts W, (Centralized.accounted W).Reachable s →
      s.2.Conserved s.1.network.tasks ∧ (s.1.centerPhase ≠ .receiving → s.2.Settled) := by
  constructor
  · intro s hs
    have hconserved := SemiCentralized.accounts_conserved hs
    refine ⟨hconserved, fun hexit => ?_⟩
    have hquiet := (SemiCentralized.invariant_of_reachable (accountedBy_base hs)).sound.quiet hexit
    rw [hquiet.no_task] at hconserved
    exact hconserved.settled
  · intro s hs
    have hconserved := Centralized.accounts_conserved hs
    refine ⟨hconserved, fun hexit => ?_⟩
    have hquiet := (Centralized.invariant_of_reachable (accountedBy_base hs)).sound.quiet hexit
    rw [hquiet.no_task] at hconserved
    exact hconserved.settled

theorem seedOnly_accounted :
    ((SemiCentralized.accounted .pair).run (SemiCentralized.seedOnly.map (·, ()))
      (SemiCentralized.sendSeed ⟨[7], 3⟩,
        (Accounts.initial fun _ => true).sendSeed ⟨[7], 3⟩)).isSome = true := by
  decide

theorem oneTask_accounted :
    ((Centralized.accounted .pair).run (Centralized.oneTask.map (·, ()))
      (Centralized.sendSeed ⟨[7], 3⟩,
        (Accounts.initial fun _ => true).sendSeed ⟨[7], 3⟩)).isSome = true := by
  decide

theorem tasks_accounted_pair :
    (((SemiCentralized.accounted .pair).run (SemiCentralized.seedOnly.map (·, ()))
      (SemiCentralized.sendSeed ⟨[7], 3⟩,
        (Accounts.initial fun _ => true).sendSeed ⟨[7], 3⟩)).get seedOnly_accounted).2.Settled ∧
    (((Centralized.accounted .pair).run (Centralized.oneTask.map (·, ()))
      (Centralized.sendSeed ⟨[7], 3⟩,
        (Accounts.initial fun _ => true).sendSeed ⟨[7], 3⟩)).get oneTask_accounted).2.Settled := by
  constructor
  · refine ((tasks_accounted .pair).1 _ ?_).2 (by decide)
    have hstart : (SemiCentralized.accounted .pair).Reachable
        (SemiCentralized.sendSeed ⟨[7], 3⟩, (Accounts.initial fun _ => true).sendSeed ⟨[7], 3⟩) :=
      .start ⟨⟨_, rfl⟩, _, _, rfl, rfl⟩
    exact hstart.run (Option.some_get _).symm
  · refine ((tasks_accounted .pair).2 _ ?_).2 (by decide)
    have hstart : (Centralized.accounted .pair).Reachable
        (Centralized.sendSeed ⟨[7], 3⟩, (Accounts.initial fun _ => true).sendSeed ⟨[7], 3⟩) :=
      .start ⟨⟨_, rfl⟩, _, _, rfl, rfl⟩
    exact hstart.run (Option.some_get _).symm

end Gempba
