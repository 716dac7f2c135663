import Gempba.Schedulers.Accounting
import Gempba.Telemetry.HubCounters

/-!
# The hubs of the ranks in a run

Each rank with telemetry reports the tasks that it sends and receives to its
hub, with the time that each took; the rest is reported at any time. The hub
keeps in 64 bits what the accounts keep exactly.
-/

namespace Gempba

set_option autoImplicit false

open Transition
open Telemetry (Counters EdgeSlot HubCounters HubReport)

theorem modify_ofFn {α : Type} {n : ℕ} (f : Fin n → α) (k : Fin n) (g : α → α) :
    (List.ofFn f).modify k g = List.ofFn (Function.update f k (g (f k))) := by
  apply List.ext_getElem
  · simp
  · intro i hi _
    rw [List.length_modify, List.length_ofFn] at hi
    rw [List.getElem_modify, List.getElem_ofFn, List.getElem_ofFn]
    split
    · rename_i hk
      obtain rfl : k = ⟨i, hi⟩ := Fin.ext hk
      rw [Function.update_self]
    · rename_i hk
      rw [Function.update_of_ne fun he => hk (congrArg Fin.val he).symm]

theorem rel_map {α β : Type} {R : α → β → Prop} {f : α → α} {g : β → β} {x : Option α}
    {y : Option β} (h : Option.Rel R x y) (hfg : ∀ a b, R a b → R (f a) (g b)) :
    Option.Rel R (x.map f) (y.map g) := by
  cases h with
  | some hab => exact .some (hfg _ _ hab)
  | none => exact .none

variable {W : World}

/-- The hub of a rank keeps its counters, as far as 64 bits go. -/
structure Telemetry.Keeps (c : Counters (Gempba.Rank W)) (h : HubCounters) : Prop where
  tasksSent : h.tasksSentTotal = UInt64.ofNat c.tasksSentTotal
  tasksRecv : h.tasksRecvTotal = UInt64.ofNat c.tasksRecvTotal
  bytesSent : h.bytesSentTotal = UInt64.ofNat c.bytesSentTotal
  bytesRecv : h.bytesRecvTotal = UInt64.ofNat c.bytesRecvTotal
  edgesOut : h.edgesOut =
    List.ofFn fun q => ⟨UInt64.ofNat (c.edgesOut q).bytes, UInt64.ofNat (c.edgesOut q).count⟩

namespace Telemetry.Keeps

variable {c : Counters (Gempba.Rank W)} {h : HubCounters}

theorem initial : Keeps (W := W) .initial (.initial W.size) := by
  constructor
  · rfl
  · rfl
  · rfl
  · rfl
  · exact (List.ofFn_const W.size (EdgeSlot.mk 0 0)).symm

theorem recordSend (hsize : W.size ≤ 2 ^ 32) (hc : Keeps c h) (q : Gempba.Rank W) (bytes : ℕ)
    (elapsed : UInt64) :
    Keeps (c.recordSend q bytes)
      (h.recordSend (UInt32.ofNat q) (UInt64.ofNat bytes) elapsed) := by
  constructor
  · change h.tasksSentTotal + 1 = UInt64.ofNat (c.tasksSentTotal + 1)
    rw [hc.tasksSent, UInt64.ofNat_add]
    rfl
  · exact hc.tasksRecv
  · change h.bytesSentTotal + UInt64.ofNat bytes = UInt64.ofNat (c.bytesSentTotal + bytes)
    rw [hc.bytesSent, UInt64.ofNat_add]
  · exact hc.bytesRecv
  · have hq : (UInt32.ofNat q).toNat = q.val := by
      refine UInt32.toNat_ofNat_of_lt' ?_
      have := q.isLt
      change q.val < 2 ^ 32
      omega
    change h.edgesOut.modify (UInt32.ofNat q).toNat (·.add (UInt64.ofNat bytes)) = _
    rw [hq, hc.edgesOut, modify_ofFn]
    congr 1
    funext p
    obtain rfl | hp := eq_or_ne p q
    · simp only [Counters.recordSend, Function.update_self, EdgeSlot.add, UInt64.ofNat_add]
      rfl
    · simp only [Counters.recordSend, Function.update_of_ne hp]

theorem recordRecv (hc : Keeps c h) (q : Gempba.Rank W) (bytes : ℕ) (elapsed : UInt64) :
    Keeps (c.recordRecv q bytes)
      (h.recordRecv (UInt32.ofNat q) (UInt64.ofNat bytes) elapsed) := by
  constructor
  · exact hc.tasksSent
  · change h.tasksRecvTotal + 1 = UInt64.ofNat (c.tasksRecvTotal + 1)
    rw [hc.tasksRecv, UInt64.ofNat_add]
    rfl
  · exact hc.bytesSent
  · change h.bytesRecvTotal + UInt64.ofNat bytes = UInt64.ofNat (c.bytesRecvTotal + bytes)
    rw [hc.bytesRecv, UInt64.ofNat_add]
  · exact hc.edgesOut

/-- No other report touches the totals of the tasks. -/
theorem record (hc : Keeps c h) (x : HubReport) : Keeps c (h.record x) := by
  cases x <;> exact ⟨hc.tasksSent, hc.tasksRecv, hc.bytesSent, hc.bytesRecv, hc.edgesOut⟩

end Telemetry.Keeps

/-- A task with the nanoseconds that its rank reports for it. -/
abbrev TimedTask (W : World) := TaskMessage W × UInt64

abbrev Hubs (W : World) := Rank W → Option HubCounters

namespace Hubs

def initial (installed : Rank W → Bool) : Hubs W :=
  fun r => if installed r then some (.initial W.size) else none

def recordSend (m : TimedTask W) (h : Hubs W) : Hubs W :=
  Function.update h m.1.source ((h m.1.source).map
    (·.recordSend (UInt32.ofNat m.1.destination) (UInt64.ofNat m.1.bundle.size) m.2))

def recordRecv (m : TimedTask W) (h : Hubs W) : Hubs W :=
  Function.update h m.1.destination ((h m.1.destination).map
    (·.recordRecv (UInt32.ofNat m.1.source) (UInt64.ofNat m.1.bundle.packet.length) m.2))

def record (r : Rank W) (x : HubReport) (h : Hubs W) : Hubs W :=
  Function.update h r ((h r).map (·.record x))

end Hubs

/-- A step of the scheduler with the tasks it received and sent, or another report. -/
inductive HubEvent (W : World) (ι : Type) where
  | process (l : ι) (received sent : List (TimedTask W))
  | report (r : Rank W) (x : HubReport)

section Machine

variable {σ ι : Type} {M : Machine σ ι Fault}

/-- A scheduler whose ranks keep accounts and report to their hubs. -/
def reportedBy (F : Flow M (TaskMessage W)) (seeded : σ → TaskBundle → Prop) :
    Machine ((σ × Accounts W) × Hubs W) (HubEvent W ι) Fault where
  initial s := M.initial s.1.1 ∧ ∃ seed installed elapsed, seeded s.1.1 seed ∧
    s.1.2 = (Accounts.initial installed).sendSeed seed ∧
    s.2 = (Hubs.initial installed).recordSend (⟨W.center, W.first, seed⟩, elapsed)
  step e s :=
    match e with
    | .process l received sent =>
      ((accountedBy F seeded).step (l, ()) s.1).bind fun t =>
        if received.map Prod.fst = F.receives l ∧ sent.map Prod.fst = F.sends l s.1.1 t.1 then
          .moved (t, sent.foldr Hubs.recordSend (received.foldr Hubs.recordRecv s.2))
        else .blocked
    | .report r x => .moved (s.1, s.2.record r x)

variable {F : Flow M (TaskMessage W)} {seeded : σ → TaskBundle → Prop}
variable {s t : (σ × Accounts W) × Hubs W}

theorem process_moved {l : ι} {received sent : List (TimedTask W)}
    (h : (reportedBy F seeded).step (.process l received sent) s = .moved t) :
    (accountedBy F seeded).step (l, ()) s.1 = .moved t.1 ∧
      received.map Prod.fst = F.receives l ∧ sent.map Prod.fst = F.sends l s.1.1 t.1.1 ∧
      t.2 = sent.foldr Hubs.recordSend (received.foldr Hubs.recordRecv s.2) := by
  obtain ⟨u, hu, h⟩ := Outcome.bind_eq_moved.mp h
  split at h
  · rename_i hlists
    cases h
    exact ⟨hu, hlists.1, hlists.2, rfl⟩
  · cases h

theorem reportedBy_base (h : (reportedBy F seeded).Reachable s) :
    (accountedBy F seeded).Reachable s.1 := by
  refine h.observe (N := accountedBy F seeded) Prod.fst ?_ ?_
  · rintro s ⟨hinitial, seed, installed, _, hseeded, haccounts, _⟩
    exact ⟨hinitial, seed, installed, hseeded, haccounts⟩
  · intro s e t _ _ hst
    cases e with
    | process l received sent => exact .inr ⟨(l, ()), trivial, (process_moved hst).1⟩
    | report r x =>
      cases hst
      exact .inl rfl

/-- Every hub keeps the counters of its rank's account. -/
def Hubs.Kept (a : Accounts W) (h : Hubs W) : Prop :=
  ∀ r, Option.Rel Telemetry.Keeps (a r).telemetry (h r)

namespace Hubs.Kept

variable {a : Accounts W} {h : Hubs W}

theorem initial (installed : Rank W → Bool) :
    Hubs.Kept (Accounts.initial installed) (Hubs.initial installed) := by
  intro r
  simp only [Accounts.initial, Hubs.initial]
  split
  · exact .some .initial
  · exact .none

/-- The account and the hub of rank `r` change, by functions that keep the counters. -/
theorem update (hkept : Hubs.Kept a h) (r : Rank W) (b : Account W)
    (f : Counters (Rank W) → Counters (Rank W)) (g : HubCounters → HubCounters)
    (hb : b.telemetry = (a r).telemetry.map f)
    (hfg : ∀ c k, Telemetry.Keeps c k → Telemetry.Keeps (f c) (g k)) :
    Hubs.Kept (Function.update a r b) (Function.update h r ((h r).map g)) := by
  intro q
  obtain rfl | hq := eq_or_ne q r
  · rw [Function.update_self, Function.update_self, hb]
    exact rel_map (hkept q) hfg
  · rw [Function.update_of_ne hq, Function.update_of_ne hq]
    exact hkept q

theorem recordSend (hsize : W.size ≤ 2 ^ 32) (hkept : Hubs.Kept a h) (m : TimedTask W) :
    Hubs.Kept (a.countSend m.1) (h.recordSend m) :=
  hkept.update m.1.source _ _ _ rfl fun _ _ hkeeps => hkeeps.recordSend hsize _ _ _

theorem recordRecv (hkept : Hubs.Kept a h) (m : TimedTask W) :
    Hubs.Kept (a.countReceive m.1) (h.recordRecv m) :=
  hkept.update m.1.destination _ _ _ rfl fun _ _ hkeeps => hkeeps.recordRecv _ _ _

theorem recordSends (hsize : W.size ≤ 2 ^ 32) (hkept : Hubs.Kept a h)
    (ms : List (TimedTask W)) :
    Hubs.Kept ((ms.map Prod.fst).foldr Accounts.countSend a) (ms.foldr Hubs.recordSend h) := by
  induction ms with
  | nil => exact hkept
  | cons m ms ih => exact ih.recordSend hsize m

theorem recordRecvs (hkept : Hubs.Kept a h) (ms : List (TimedTask W)) :
    Hubs.Kept ((ms.map Prod.fst).foldr Accounts.countReceive a)
      (ms.foldr Hubs.recordRecv h) := by
  induction ms with
  | nil => exact hkept
  | cons m ms ih => exact ih.recordRecv m

theorem record (hkept : Hubs.Kept a h) (r : Rank W) (x : HubReport) :
    Hubs.Kept a (h.record r x) := by
  have hupdate := hkept.update r (a r) id (·.record x) (congrFun Option.map_id _).symm
    fun _ _ hkeeps => hkeeps.record x
  rwa [Function.update_eq_self] at hupdate

end Hubs.Kept

theorem kept_of_reachable (hsize : W.size ≤ 2 ^ 32) (h : (reportedBy F seeded).Reachable s) :
    Hubs.Kept s.1.2 s.2 := by
  refine h.invariant (I := fun s => Hubs.Kept s.1.2 s.2) ?_ ?_
  · rintro s ⟨_, seed, installed, elapsed, _, haccounts, hhubs⟩
    rw [haccounts, hhubs]
    exact (Hubs.Kept.initial installed).recordSend hsize (⟨W.center, W.first, seed⟩, elapsed)
  · intro s e t _ hkept _ hst
    cases e with
    | process l received sent =>
      obtain ⟨haccounted, hreceived, hsent, hhubs⟩ := process_moved hst
      obtain ⟨_, hreact⟩ := Machine.extend_moved.mp haccounted
      rw [← Outcome.moved.inj hreact, hhubs, ← hreceived, ← hsent]
      exact (hkept.recordRecvs received).recordSends hsize sent
    | report r x =>
      cases hst
      exact hkept.record r x

end Machine

def SemiCentralized.reported (W : World) :=
  reportedBy (SemiCentralized.flow W) fun s seed => s = SemiCentralized.sendSeed seed

def Centralized.reported (W : World) :=
  reportedBy (Centralized.flow W) fun s seed => s = Centralized.sendSeed seed

/-! ## After the center's loop -/

/-- From `exited` on no task is in flight. -/
structure Quiet {σ ι : Type} {M : Machine σ ι Fault} (F : Flow M (TaskMessage W))
    (exited : σ → Prop) : Prop where
  stays : ∀ s l t, M.Reachable s → exited s → M.step l s = .moved t → exited t
  inFlight : ∀ s, M.Reachable s → exited s → F.inFlight s = 0

namespace Quiet

variable {σ ι : Type} {M : Machine σ ι Fault} {F : Flow M (TaskMessage W)} {exited : σ → Prop}

theorem nothing_moves (h : Quiet F exited) {s t : σ} {l : ι} (hs : M.Reachable s)
    (hexited : exited s) (hst : M.step l s = .moved t) :
    F.receives l = [] ∧ F.sends l s t = [] := by
  obtain ⟨rest, hbefore, hafter⟩ := F.moves l s t hst
  rw [h.inFlight s hs hexited] at hbefore
  rw [h.inFlight t (hs.tail trivial hst) (h.stays s l t hs hexited hst)] at hafter
  have hreceives := (add_eq_zero.mp hbefore.symm).1
  have hsends := (add_eq_zero.mp hafter.symm).1
  exact ⟨(Multiset.coe_eq_zero _).mp hreceives, (Multiset.coe_eq_zero _).mp hsends⟩

/-- The accounts stay as they are, however long the run goes on. -/
theorem accounts_stay (h : Quiet F exited) {seeded : σ → TaskBundle → Prop}
    {s t : (σ × Accounts W) × Hubs W} (hs : (reportedBy F seeded).Reachable s)
    (hexited : exited s.1.1)
    (hst : Relation.ReflTransGen ((reportedBy F seeded).StepWhere fun _ _ => True) s t) :
    (reportedBy F seeded).Reachable t ∧ exited t.1.1 ∧ t.1.2 = s.1.2 := by
  induction hst with
  | refl => exact ⟨hs, hexited, rfl⟩
  | @tail u v _ huv ih =>
    obtain ⟨hu, hexited, hsame⟩ := ih
    obtain ⟨e, _, huv⟩ := huv
    refine ⟨hu.tail trivial huv, ?_⟩
    cases e with
    | process l received sent =>
      have hbase : M.Reachable u.1.1 := accountedBy_base (reportedBy_base hu)
      obtain ⟨hstep, hreact⟩ := Machine.extend_moved.mp (process_moved huv).1
      obtain ⟨hreceives, hsends⟩ := h.nothing_moves hbase hexited hstep
      have haccounts := Outcome.moved.inj hreact
      rw [hreceives, hsends] at haccounts
      exact ⟨h.stays _ _ _ hbase hexited hstep, haccounts.symm.trans hsame⟩
    | report r x =>
      cases huv
      exact ⟨hexited, hsame⟩

end Quiet

end Gempba
