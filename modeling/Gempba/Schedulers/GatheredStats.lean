import Gempba.Library.Rows
import Gempba.Schedulers.SynchronizeStats

/-!
# What rank 0 has gathered

Rank 0 has the statistics of all calls it has returned from, those of a call
one after the other in the order of the ranks, each as the rank gave it in its
call of that number.
-/

namespace Gempba

set_option autoImplicit false

open Transition Telemetry

/-- How many ranks rank 0 has gathered from in a call. -/
def SyncPoint.progress (n : ℕ) : SyncPoint → ℕ
  | .outside | .entering | .sending | .waiting => 0
  | .gathering next => next
  | .leaving => n + 1

/-- The rank has given its statistics in the call it is in. -/
def SyncPoint.gave : SyncPoint → Bool
  | .outside | .entering | .sending => false
  | .waiting | .gathering _ | .leaving => true

/-- The rank is between the barriers of a call, or in the second. -/
def SyncPoint.exchanging : SyncPoint → Bool
  | .outside | .entering => false
  | .sending | .waiting | .gathering _ | .leaving => true

namespace SyncState

variable {n : ℕ} {s t : SyncState n} {r : Fin (n + 1)}

/-- How many statistics of a rank rank 0 has gathered. -/
def gatheredFrom (s : SyncState n) (r : Fin (n + 1)) : ℕ :=
  (s.rank 0).passed / 2 + if (r : ℕ) < (s.rank 0).point.progress n then 1 else 0

/-- How many statistics rank 0 has gathered. -/
def total (s : SyncState n) : ℕ :=
  (n + 1) * ((s.rank 0).passed / 2) + (s.rank 0).point.progress n

def given (s : SyncState n) (r : Fin (n + 1)) : List DefaultMpiStats := (s.rank r).given

/-- A rank runs its own part of the call. -/
structure Proper (r : Fin (n + 1)) (x : SyncRank) : Prop where
  passed : x.passed % 2 = x.point.exchanging.toNat
  given : x.given.length = x.passed / 2 + x.point.gave.toNat
  center : r = 0 → x.point ≠ .sending ∧ x.point ≠ .waiting
  worker : ∀ next, x.point = .gathering next → r = 0 ∧ 0 < next ∧ next ≤ n + 1

structure Synchronized (s : SyncState n) : Prop where
  proper : ∀ r, Proper r (s.rank r)
  together : Barriers.Together s.gate
  gathered : ∀ r, s.gatheredFrom r ≤ (s.given r).length
  link : ∀ r, r ≠ 0 → (s.link r).map DefaultMpiStats.fromPacket =
    ((s.given r).drop (s.gatheredFrom r)).map some
  length : s.statsVector.length = s.total
  entries : Rows.Lists s.statsVector s.given

theorem proper_start (r : Fin (n + 1)) : Proper r ((start : SyncState n).rank r) where
  passed := rfl
  given := Nat.zero_div 2 ▸ rfl
  center _ := ⟨SyncPoint.noConfusion, SyncPoint.noConfusion⟩
  worker next h := by cases h

theorem gatheredFrom_start (r : Fin (n + 1)) : (start : SyncState n).gatheredFrom r = 0 := by
  have hnone : ¬ (r : ℕ) < SyncPoint.outside.progress n := Nat.not_lt_zero _
  have h : (start : SyncState n).gatheredFrom r =
      0 / 2 + if (r : ℕ) < SyncPoint.outside.progress n then 1 else 0 := rfl
  rw [h, if_neg hnone]

theorem synchronized_start : Synchronized (start : SyncState n) where
  proper := proper_start
  together _ _ := Nat.le_refl _
  gathered r := by
    rw [gatheredFrom_start]
    exact Nat.zero_le _
  link r _ := by
    have hgiven : (start : SyncState n).given r = [] := rfl
    rw [hgiven, List.drop_nil]
    rfl
  length := by
    have htotal : (start : SyncState n).total = (n + 1) * (0 / 2) + 0 := rfl
    rw [htotal, Nat.zero_div]
    rfl
  entries := Rows.lists_nil _

theorem rank_setRank (x : SyncRank) (r' : Fin (n + 1)) :
    (s.setRank r x).rank r' = if r' = r then x else s.rank r' := Function.update_apply ..

theorem rank_setRank_self (x : SyncRank) : (s.setRank r x).rank r = x := Function.update_self ..

theorem rank_setRank_ne {r' : Fin (n + 1)} (h : r' ≠ r) (x : SyncRank) :
    (s.setRank r x).rank r' = s.rank r' := Function.update_of_ne h ..

theorem gatheredFrom_setRank (h : r ≠ 0) (x : SyncRank) (r' : Fin (n + 1)) :
    (s.setRank r x).gatheredFrom r' = s.gatheredFrom r' := by
  rw [gatheredFrom, gatheredFrom, rank_setRank_ne h.symm]

theorem total_setRank (h : r ≠ 0) (x : SyncRank) : (s.setRank r x).total = s.total := by
  rw [total, total, rank_setRank_ne h.symm]

theorem together_setRank (h : Barriers.Together s.gate) {x : SyncRank}
    (hpassed : x.passed = (s.rank r).passed)
    (harrived : (s.rank r).gate.arrived ≤ x.gate.arrived) :
    Barriers.Together (s.setRank r x).gate := by
  have hpast : ∀ r', ((s.setRank r x).gate r').passed = (s.gate r').passed := by
    intro r'
    rw [gate, gate, rank_setRank]
    split
    · rename_i hr
      rw [hr]
      exact hpassed
    · rfl
  apply h.of_step (r := r)
  · intro r'
    rw [gate, gate, rank_setRank]
    split
    · rename_i hr
      rw [hr]
      exact harrived
    · exact Nat.le_refl _
  · intro r' _
    exact Nat.le_of_eq (hpast r')
  · intro r'
    rw [hpast]
    apply (h r r').trans
    rw [gate, gate, rank_setRank]
    split
    · rename_i hr
      rw [hr]
      exact harrived
    · exact Nat.le_refl _

theorem together_leave (h : Barriers.Together s.gate) (hopen : Barriers.IsOpen s.gate r)
    {x : SyncRank} (hgate : x.gate = (s.rank r).gate.leave) :
    Barriers.Together (s.setRank r x).gate := by
  have harrived : ∀ r', (s.gate r').arrived = ((s.setRank r x).gate r').arrived := by
    intro r'
    rw [gate, gate, rank_setRank]
    split
    · rename_i hr
      rw [hr, hgate]
      exact (Barriers.Gate.arrived_leave hopen.1).symm
    · rfl
  apply h.of_step (r := r)
  · exact fun r' => Nat.le_of_eq (harrived r')
  · intro r' hne
    rw [gate, gate, rank_setRank_ne hne]
  · intro r'
    rw [← harrived, gate, rank_setRank_self, hgate]
    exact hopen.2 r'

/-- A step of one rank that gives nothing and leaves the counts of rank 0 as they are. -/
theorem Synchronized.setRank (hs : s.Synchronized) {x : SyncRank} (hproper : Proper r x)
    (htogether : Barriers.Together (s.setRank r x).gate) (hgiven : x.given = (s.rank r).given)
    (hgathered : ∀ r', (s.setRank r x).gatheredFrom r' = s.gatheredFrom r')
    (htotal : (s.setRank r x).total = s.total) : (s.setRank r x).Synchronized := by
  have hsame : (s.setRank r x).given = s.given := by
    funext r'
    rw [given, given, rank_setRank]
    split
    · rename_i hr
      rw [hr]
      exact hgiven
    · rfl
  constructor
  · intro r'
    rw [rank_setRank]
    split
    · rename_i hr
      rw [hr]
      exact hproper
    · exact hs.proper r'
  · exact htogether
  · intro r'
    rw [hgathered, hsame]
    exact hs.gathered r'
  · intro r' hne
    rw [hgathered, hsame]
    exact hs.link r' hne
  · rw [htotal]
    exact hs.length
  · rw [hsame]
    exact hs.entries

theorem Synchronized.work (hs : s.Synchronized) (r : Fin (n + 1)) (stats : DefaultMpiStats) :
    (s.work r stats).Sure Synchronized := by
  rw [SyncState.work]
  split
  · have hx := hs.proper r
    refine hs.setRank ⟨hx.passed, hx.given, hx.center, hx.worker⟩ ?_ rfl ?_ ?_
    · exact together_setRank hs.together rfl (Nat.le_refl _)
    · intro r'
      rw [gatheredFrom, gatheredFrom, rank_setRank]
      split
      · rename_i hr
        rw [← hr]
      · rfl
    · rw [total, total, rank_setRank]
      split
      · rename_i hr
        rw [← hr]
      · rfl
  · trivial

theorem Synchronized.setPoint (hs : s.Synchronized) {p : SyncPoint}
    (hexchanging : p.exchanging = (s.rank r).point.exchanging)
    (hgave : p.gave = (s.rank r).point.gave)
    (harrived : (s.rank r).point.inside.toNat ≤ p.inside.toNat)
    (hcenter : r = 0 → p ≠ .sending ∧ p ≠ .waiting)
    (hworker : ∀ next, p = .gathering next → r = 0 ∧ 0 < next ∧ next ≤ n + 1)
    (hprogress : r = 0 → p.progress n = (s.rank r).point.progress n) :
    (s.setPoint r p).Synchronized := by
  have hx := hs.proper r
  have hprogress' : ((s.setPoint r p).rank 0).point.progress n = (s.rank 0).point.progress n := by
    rw [SyncState.setPoint, rank_setRank]
    split
    · rename_i hr
      subst hr
      exact hprogress rfl
    · rfl
  have hpassed : ((s.setPoint r p).rank 0).passed = (s.rank 0).passed := by
    rw [SyncState.setPoint, rank_setRank]
    split
    · rename_i hr
      subst hr
      rfl
    · rfl
  rw [SyncState.setPoint] at hprogress' hpassed
  apply hs.setRank
  · constructor
    · exact hx.passed.trans (congrArg Bool.toNat hexchanging.symm)
    · exact hx.given.trans (congrArg (fun b => (s.rank r).passed / 2 + Bool.toNat b) hgave.symm)
    · exact hcenter
    · exact hworker
  · exact together_setRank hs.together rfl (Nat.add_le_add_left harrived _)
  · rfl
  · intro r'
    rw [gatheredFrom, gatheredFrom, hprogress', hpassed]
  · rw [total, total, hprogress', hpassed]

theorem Synchronized.synchronizeStats (hs : s.Synchronized) (r : Fin (n + 1)) :
    (s.synchronizeStats r).Sure Synchronized := by
  rw [SyncState.synchronizeStats]
  split
  · rename_i hpoint
    apply hs.setPoint
    · rw [hpoint]
      rfl
    · rw [hpoint]
      rfl
    · exact Bool.toNat_le _
    · exact fun _ => ⟨SyncPoint.noConfusion, SyncPoint.noConfusion⟩
    · intro next hnext
      cases hnext
    · intro _
      rw [hpoint]
      rfl
  · trivial

theorem Synchronized.ssendReturns (hs : s.Synchronized) (r : Fin (n + 1)) :
    (s.ssendReturns r).Sure Synchronized := by
  rw [SyncState.ssendReturns]
  split
  · rename_i hwaiting
    have hpoint := hwaiting.1
    apply hs.setPoint
    · rw [hpoint]
      rfl
    · rw [hpoint]
      rfl
    · exact Bool.toNat_le _
    · exact fun _ => ⟨SyncPoint.noConfusion, SyncPoint.noConfusion⟩
    · intro next hnext
      cases hnext
    · intro hr
      exact absurd hpoint ((hs.proper r).center hr).2
  · trivial

theorem Synchronized.gathered_step (hs : s.Synchronized) : s.gathered.Sure Synchronized := by
  rw [SyncState.gathered]
  split
  · rename_i next hpoint
    split
    · trivial
    · rename_i hnext
      have hbound := ((hs.proper 0).worker next hpoint).2.2
      apply hs.setPoint
      · rw [hpoint]
        rfl
      · rw [hpoint]
        rfl
      · exact Bool.toNat_le _
      · exact fun _ => ⟨SyncPoint.noConfusion, SyncPoint.noConfusion⟩
      · intro next hnext
        cases hnext
      · intro _
        rw [hpoint]
        exact Nat.le_antisymm (Nat.le_of_not_lt hnext) hbound
  all_goals trivial

theorem half_succ {k : ℕ} (h : k % 2 = 0) : (k + 1) / 2 = k / 2 := by omega

theorem half_succ_of_odd {k : ℕ} (h : k % 2 = 1) : (k + 1) / 2 = k / 2 + 1 := by omega

theorem Synchronized.enterSending (hs : s.Synchronized) (hr : r ≠ 0)
    (hopen : Barriers.IsOpen s.gate r) (hpoint : (s.rank r).point = .entering) :
    (s.setRank r ((s.rank r).pass .sending)).Synchronized := by
  have hx := hs.proper r
  have heven : (s.rank r).passed % 2 = 0 := by
    rw [hx.passed, hpoint]
    rfl
  have hlength : (s.rank r).given.length = (s.rank r).passed / 2 := by
    rw [hx.given, hpoint]
    rfl
  apply hs.setRank
  · constructor
    · show ((s.rank r).passed + 1) % 2 = 1
      omega
    · show (s.rank r).given.length = ((s.rank r).passed + 1) / 2 + 0
      rw [hlength, half_succ heven, Nat.add_zero]
    · exact fun h => absurd h hr
    · intro next hnext
      cases hnext
  · exact together_leave hs.together hopen rfl
  · rfl
  · exact gatheredFrom_setRank hr _
  · exact total_setRank hr _

theorem Synchronized.leave (hs : s.Synchronized) (hopen : Barriers.IsOpen s.gate r)
    (hpoint : (s.rank r).point = .leaving) :
    (s.setRank r ((s.rank r).pass .outside)).Synchronized := by
  have hx := hs.proper r
  have hodd : (s.rank r).passed % 2 = 1 := by
    rw [hx.passed, hpoint]
    rfl
  have hlength : (s.rank r).given.length = (s.rank r).passed / 2 + 1 := by
    rw [hx.given, hpoint]
    rfl
  apply hs.setRank
  · constructor
    · show ((s.rank r).passed + 1) % 2 = 0
      omega
    · show (s.rank r).given.length = ((s.rank r).passed + 1) / 2 + 0
      rw [hlength, half_succ_of_odd hodd]
    · exact fun _ => ⟨SyncPoint.noConfusion, SyncPoint.noConfusion⟩
    · intro next hnext
      cases hnext
  · exact together_leave hs.together hopen rfl
  · rfl
  · intro r'
    obtain rfl | hr := eq_or_ne r 0
    · have hlt : (r' : ℕ) < SyncPoint.leaving.progress n := r'.isLt
      have hnone : ¬ (r' : ℕ) < SyncPoint.outside.progress n := Nat.not_lt_zero _
      rw [gatheredFrom, gatheredFrom, rank_setRank_self, hpoint, if_pos hlt]
      show ((s.rank 0).passed + 1) / 2 + _ = _
      rw [half_succ_of_odd hodd]
      exact congrArg _ (if_neg hnone)
    · exact gatheredFrom_setRank hr _ r'
  · obtain rfl | hr := eq_or_ne r 0
    · rw [total, total, rank_setRank_self, hpoint]
      show (n + 1) * (((s.rank 0).passed + 1) / 2) + 0 = _
      rw [half_succ_of_odd hodd, Nat.mul_succ]
      rfl
    · exact total_setRank hr _

theorem given_give (x : SyncRank) (h : x.given = (s.rank r).given) :
    (s.setRank r x.give).given = Function.update s.given r (s.given r ++ [x.stats]) := by
  funext r'
  rw [given, rank_setRank, Function.update_apply]
  split
  · rw [SyncRank.give, h]
    rfl
  · rfl

theorem Synchronized.enterGathering (hs : s.Synchronized) (hopen : Barriers.IsOpen s.gate 0)
    (hpoint : (s.rank 0).point = .entering) :
    ((s.setRank 0 ((s.rank 0).pass (.gathering 1)).give).push (s.rank 0).stats).Synchronized := by
  have hx := hs.proper 0
  let x := ((s.rank 0).pass (.gathering 1)).give
  let u := (s.setRank 0 x).push (s.rank 0).stats
  have heven : (s.rank 0).passed % 2 = 0 := by
    rw [hx.passed, hpoint]
    rfl
  have hcount : (s.given 0).length = (s.rank 0).passed / 2 := by
    rw [given, hx.given, hpoint]
    rfl
  have htotal : s.total = (n + 1) * ((s.rank 0).passed / 2) := by
    rw [total, hpoint]
    rfl
  have hself : u.rank 0 = x := rank_setRank_self (s := s) (r := 0) x
  have hothers : ∀ r, r ≠ 0 → u.rank r = s.rank r := fun r hr => rank_setRank_ne hr x
  have hgiven : u.given = Function.update s.given 0 (s.given 0 ++ [(s.rank 0).stats]) :=
    given_give ((s.rank 0).pass (.gathering 1)) rfl
  have hpassed : (u.rank 0).passed / 2 = (s.rank 0).passed / 2 := by
    rw [hself]
    exact half_succ heven
  have hfrom : ∀ r, r ≠ 0 → u.gatheredFrom r = s.gatheredFrom r := by
    intro r hr
    have hone : ¬ (r : ℕ) < 1 := fun h => hr (Fin.ext (Nat.lt_one_iff.mp h))
    have hnone : ¬ (r : ℕ) < SyncPoint.entering.progress n := Nat.not_lt_zero _
    rw [gatheredFrom, gatheredFrom, hpassed, hself, hpoint, if_neg hnone]
    exact congrArg _ (if_neg hone)
  constructor
  · intro r
    obtain rfl | hr := eq_or_ne r 0
    · rw [hself]
      constructor
      · show ((s.rank 0).passed + 1) % 2 = 1
        omega
      · show ((s.rank 0).given ++ [(s.rank 0).stats]).length = ((s.rank 0).passed + 1) / 2 + 1
        rw [List.length_append, half_succ heven]
        exact congrArg (· + 1) hcount
      · exact fun _ => ⟨SyncPoint.noConfusion, SyncPoint.noConfusion⟩
      · intro next hnext
        cases hnext
        exact ⟨rfl, Nat.one_pos, Nat.succ_le_succ (Nat.zero_le n)⟩
    · rw [hothers r hr]
      exact hs.proper r
  · exact together_leave (x := x) hs.together hopen rfl
  · intro r
    obtain rfl | hr := eq_or_ne r 0
    · rw [hgiven, Function.update_self, List.length_append, hcount, gatheredFrom, hpassed, hself]
      exact Nat.le_refl _
    · rw [hgiven, Function.update_of_ne hr, hfrom r hr]
      exact hs.gathered r
  · intro r hr
    rw [hgiven, Function.update_of_ne hr, hfrom r hr]
    exact hs.link r hr
  · rw [total, hpassed, hself]
    show (s.statsVector ++ [(s.rank 0).stats]).length = _ + 1
    rw [List.length_append, hs.length, htotal]
    rfl
  · rw [hgiven]
    apply (hs.entries.grow 0 (s.rank 0).stats).push (k := (s.rank 0).passed / 2) (r := 0)
    · rw [hs.length, htotal]
      rfl
    · rw [Function.update_self, ← hcount, List.getElem?_concat_length]

theorem Synchronized.passBarrier (hs : s.Synchronized) (r : Fin (n + 1)) :
    (s.passBarrier r).Sure Synchronized := by
  rw [SyncState.passBarrier]
  split
  · rename_i hopen
    split
    · rename_i hpoint
      split
      · rename_i hr
        subst hr
        exact hs.enterGathering hopen hpoint
      · rename_i hr
        exact hs.enterSending hr hopen hpoint
    · rename_i hpoint
      exact hs.leave hopen hpoint
    all_goals trivial
  · trivial

/-- A message joins those of its sender that have not been received. -/
theorem Synchronized.ssend (hs : s.Synchronized) (r : Fin (n + 1)) (fill : ℕ → UInt8) :
    (s.ssend r fill).Sure Synchronized := by
  rw [SyncState.ssend]
  split
  · rename_i hpoint
    have hx := hs.proper r
    have hr : r ≠ 0 := fun hr => (hx.center hr).1 hpoint
    let x := ((s.rank r).setPoint .waiting).give
    let u := (s.setRank r x).setLink r (s.link r ++ [(s.rank r).stats.serialize fill])
    have hgiven : u.given = Function.update s.given r (s.given r ++ [(s.rank r).stats]) :=
      given_give ((s.rank r).setPoint .waiting) rfl
    have hfrom : ∀ r', u.gatheredFrom r' = s.gatheredFrom r' := gatheredFrom_setRank hr x
    have htogether : Barriers.Together u.gate := by
      apply together_setRank (x := x) hs.together rfl
      have harrived : (s.rank r).gate.arrived = (s.rank r).passed := by
        rw [Barriers.Gate.arrived, SyncRank.gate, hpoint]
        rfl
      rw [harrived]
      exact Nat.le_add_right _ _
    constructor
    · intro r'
      show Proper r' ((s.setRank r x).rank r')
      rw [rank_setRank]
      split
      · rename_i hr'
        subst hr'
        constructor
        · rw [show x.passed = (s.rank r').passed from rfl, hx.passed, hpoint]
          rfl
        · show ((s.rank r').given ++ [(s.rank r').stats]).length = (s.rank r').passed / 2 + 1
          rw [List.length_append, hx.given, hpoint]
          rfl
        · exact fun h => absurd h hr
        · intro next hnext
          cases hnext
      · exact hs.proper r'
    · exact htogether
    · intro r'
      rw [hgiven, hfrom]
      apply (hs.gathered r').trans
      rw [Function.update_apply]
      split
      · rename_i hr'
        rw [hr', List.length_append]
        exact Nat.le_add_right _ _
      · exact Nat.le_refl _
    · intro r' hr'
      rw [hgiven, hfrom]
      obtain rfl | hne := eq_or_ne r' r
      · have hlink : u.link r' = s.link r' ++ [(s.rank r').stats.serialize fill] :=
          Function.update_self ..
        rw [hlink, Function.update_self, List.drop_append_of_le_length (hs.gathered r'),
          List.map_append, List.map_append, hs.link r' hr', List.map_singleton,
          DefaultMpiStats.fromPacket_serialize, List.map_singleton]
      · have hlink : u.link r' = s.link r' := Function.update_of_ne hne ..
        rw [hlink, Function.update_of_ne hne]
        exact hs.link r' hr'
    · exact hs.length.trans (total_setRank hr x).symm
    · rw [hgiven]
      exact hs.entries.grow r (s.rank r).stats
  · trivial

/-- The oldest message of the next rank holds the statistics that rank 0 lacks first. -/
theorem Synchronized.recv_packet (hs : s.Synchronized) {packet : Bytes} {packets : List Bytes}
    (hr : r ≠ 0) (hlink : s.link r = packet :: packets) :
    ∃ stats, DefaultMpiStats.fromPacket packet = some stats ∧
      (s.given r)[s.gatheredFrom r]? = some stats ∧
      packets.map DefaultMpiStats.fromPacket =
        ((s.given r).drop (s.gatheredFrom r + 1)).map some := by
  have hall := hs.link r hr
  rw [hlink, List.map_cons] at hall
  cases hrest : (s.given r).drop (s.gatheredFrom r) with
  | nil =>
    rw [hrest] at hall
    cases hall
  | cons stats rest =>
    rw [hrest, List.map_cons] at hall
    obtain ⟨hhead, htail⟩ := List.cons.inj hall
    refine ⟨stats, hhead, ?_, ?_⟩
    · rw [← List.head?_drop, hrest]
      rfl
    · rw [← List.tail_drop, hrest]
      exact htail

theorem Synchronized.receive (hs : s.Synchronized) {next : ℕ} (h : next < n + 1)
    (hpoint : (s.rank 0).point = .gathering next) {packets : List Bytes} {stats : DefaultMpiStats}
    (hstats : (s.given ⟨next, h⟩)[s.gatheredFrom ⟨next, h⟩]? = some stats)
    (hpackets : packets.map DefaultMpiStats.fromPacket =
      ((s.given ⟨next, h⟩).drop (s.gatheredFrom ⟨next, h⟩ + 1)).map some) :
    (((s.setLink ⟨next, h⟩ packets).setPoint 0 (.gathering (next + 1))).push
      stats).Synchronized := by
  have hx := hs.proper 0
  let x := (s.rank 0).setPoint (.gathering (next + 1))
  let u := ((s.setLink ⟨next, h⟩ packets).setPoint 0 (.gathering (next + 1))).push stats
  have hself : u.rank 0 = x := rank_setRank_self (s := s) (r := 0) x
  have hothers : ∀ r, r ≠ 0 → u.rank r = s.rank r := fun r hr => rank_setRank_ne hr x
  have hgiven : u.given = s.given := by
    funext r
    obtain rfl | hr := eq_or_ne r 0
    · rw [given, hself]
      rfl
    · rw [given, hothers r hr]
      rfl
  have hfrom : ∀ r : Fin (n + 1), s.gatheredFrom r =
      (s.rank 0).passed / 2 + if (r : ℕ) < next then 1 else 0 := by
    intro r
    rw [gatheredFrom, hpoint]
    rfl
  have hfrom' : ∀ r : Fin (n + 1), u.gatheredFrom r =
      (s.rank 0).passed / 2 + if (r : ℕ) < next + 1 then 1 else 0 := by
    intro r
    rw [gatheredFrom, hself]
    rfl
  have hnext : s.gatheredFrom ⟨next, h⟩ = (s.rank 0).passed / 2 := by
    rw [hfrom]
    exact congrArg _ (if_neg (Nat.lt_irrefl next))
  have hnext' : u.gatheredFrom ⟨next, h⟩ = s.gatheredFrom ⟨next, h⟩ + 1 := by
    rw [hfrom', hnext]
    exact congrArg _ (if_pos (Nat.lt_succ_self next))
  have hsame : ∀ r : Fin (n + 1), r ≠ ⟨next, h⟩ → u.gatheredFrom r = s.gatheredFrom r := by
    intro r hr
    have hne : (r : ℕ) ≠ next := fun hval => hr (Fin.ext hval)
    rw [hfrom, hfrom']
    congr 1
    by_cases hlt : (r : ℕ) < next
    · rw [if_pos hlt, if_pos (Nat.lt_succ_of_lt hlt)]
    · rw [if_neg hlt, if_neg (by omega)]
  have htotal : s.total = (n + 1) * ((s.rank 0).passed / 2) + next := by
    rw [total, hpoint]
    rfl
  constructor
  · intro r
    obtain rfl | hr := eq_or_ne r 0
    · rw [hself]
      constructor
      · rw [show x.passed = (s.rank 0).passed from rfl, hx.passed, hpoint]
        rfl
      · rw [show x.given = (s.rank 0).given from rfl, hx.given, hpoint]
        rfl
      · exact fun _ => ⟨SyncPoint.noConfusion, SyncPoint.noConfusion⟩
      · intro next' hnext
        cases hnext
        exact ⟨rfl, Nat.succ_pos next, h⟩
    · rw [hothers r hr]
      exact hs.proper r
  · apply together_setRank (x := x) hs.together rfl
    rw [Barriers.Gate.arrived, SyncRank.gate, hpoint]
    exact Nat.le_refl _
  · intro r
    rw [hgiven]
    obtain rfl | hr := eq_or_ne r ⟨next, h⟩
    · rw [hnext']
      exact (List.getElem?_eq_some_iff.mp hstats).1
    · rw [hsame r hr]
      exact hs.gathered r
  · intro r hr
    rw [hgiven]
    obtain rfl | hne := eq_or_ne r ⟨next, h⟩
    · have hlink : u.link ⟨next, h⟩ = packets := Function.update_self ..
      rw [hlink, hnext']
      exact hpackets
    · have hlink : u.link r = s.link r := Function.update_of_ne hne ..
      rw [hlink, hsame r hne]
      exact hs.link r hr
  · rw [total, hself]
    show (s.statsVector ++ [stats]).length = _ + (next + 1)
    rw [List.length_append, hs.length, htotal]
    rfl
  · rw [hgiven]
    apply hs.entries.push (k := (s.rank 0).passed / 2) (r := ⟨next, h⟩)
    · rw [hs.length, htotal]
    · rw [← hnext]
      exact hstats

theorem Synchronized.recv (hs : s.Synchronized) : s.recv.Sure Synchronized := by
  rw [SyncState.recv]
  split
  · rename_i next hpoint
    split
    · rename_i h
      split
      · trivial
      · rename_i packet packets hlink
        have hr : (⟨next, h⟩ : Fin (n + 1)) ≠ 0 := by
          intro hzero
          have hpos := ((hs.proper 0).worker next hpoint).2.1
          have hval : next = 0 := congrArg Fin.val hzero
          omega
        obtain ⟨stats, hread, hstats, hpackets⟩ := hs.recv_packet hr hlink
        rw [hread]
        exact hs.receive h hpoint hstats hpackets
    · trivial
  all_goals trivial

theorem synchronized_step {e : SyncEvent n} (hs : s.Synchronized) :
    (step e s).Sure Synchronized := by
  cases e with
  | work r stats => exact hs.work r stats
  | synchronizeStats r => exact hs.synchronizeStats r
  | passBarrier r => exact hs.passBarrier r
  | ssend r fill => exact hs.ssend r fill
  | ssendReturns r => exact hs.ssendReturns r
  | recv => exact hs.recv
  | gathered => exact hs.gathered_step

theorem synchronized_of_reachable (h : (syncMachine n).Reachable s) : s.Synchronized ∧
    ∀ e fault, step e s ≠ .raised fault := by
  obtain ⟨hs, hsure⟩ := h.sure (I := Synchronized)
    (by
      rintro s rfl
      exact synchronized_start)
    fun s e hs _ => synchronized_step hs
  exact ⟨hs, fun e fault => hsure e fault trivial⟩

end SyncState

end Gempba
