import Gempba.Library.Completion
import Gempba.Schedulers.GatheredStats

/-!
# The gathering of the statistics comes to an end

Once the ranks are in the call, nothing but their own steps is needed: these
end with every rank outside, or with ranks that wait for another to make the
call as well.
-/

namespace Gempba

set_option autoImplicit false

open Transition

/-- What a rank has left of the call. -/
def SyncPoint.left (n : ℕ) : SyncPoint → ℕ
  | .outside => 0
  | .leaving => 1
  | .waiting => 2
  | .sending => 3
  | .gathering next => n + 1 - next + 2
  | .entering => n + 4

namespace SyncEvent

variable {n : ℕ}

def internal : SyncEvent n → Bool
  | .work _ _ | .synchronizeStats _ => false
  | .passBarrier _ | .ssend _ _ | .ssendReturns _ | .recv | .gathered => true

def gain : SyncEvent n → ℕ
  | .synchronizeStats _ => n + 4
  | .work _ _ | .passBarrier _ | .ssend _ _ | .ssendReturns _ | .recv | .gathered => 0

end SyncEvent

namespace SyncState

open SyncEvent

variable {n : ℕ} {s t : SyncState n} {r : Fin (n + 1)}

def left (s : SyncState n) : ℕ := ∑ r, (s.rank r).point.left n

def calls (s : SyncState n) (r : Fin (n + 1)) : ℕ :=
  (s.rank r).passed / 2 + if (s.rank r).point = .outside then 0 else 1

/-- No rank is past the first barrier, and one has not arrived at it. -/
structure Rests (s : SyncState n) : Prop where
  point : ∀ r, (s.rank r).point = .outside ∨ (s.rank r).point = .entering
  absent : ∃ r, (s.rank r).point = .outside

theorem left_setRank (x : SyncRank) :
    (s.setRank r x).left + (s.rank r).point.left n = s.left + x.point.left n :=
  sum_update_add (fun x : SyncRank => x.point.left n) s.rank r x

theorem step_left {e : SyncEvent n} (h : step e s = .moved t) :
    (internal e).toNat + t.left ≤ s.left + gain e := by
  cases e with
  | work r stats =>
    rw [step, work] at h
    split at h
    · cases h
      have hsum := left_setRank (s := s) (r := r) { s.rank r with stats }
      simp only [internal, gain, Bool.toNat_false] at hsum ⊢
      omega
    · cases h
  | synchronizeStats r =>
    rw [step, synchronizeStats] at h
    split at h
    · rename_i hpoint
      cases h
      have hsum := left_setRank (s := s) (r := r) ((s.rank r).setPoint .entering)
      rw [hpoint] at hsum
      simp only [internal, gain, Bool.toNat_false, setPoint, SyncRank.setPoint, SyncPoint.left]
        at hsum ⊢
      omega
    · cases h
  | passBarrier r =>
    rw [step, passBarrier] at h
    split at h
    · split at h
      · rename_i hpoint
        split at h
        · cases h
          have hsum := left_setRank (s := s) (r := r) ((s.rank r).pass (.gathering 1)).give
          have hpush : ((s.setRank r ((s.rank r).pass (.gathering 1)).give).push
              (s.rank r).stats).left = (s.setRank r ((s.rank r).pass (.gathering 1)).give).left :=
            rfl
          rw [hpoint] at hsum
          simp only [internal, gain, Bool.toNat_true, SyncRank.pass, SyncRank.give,
            SyncPoint.left] at hsum hpush ⊢
          omega
        · cases h
          have hsum := left_setRank (s := s) (r := r) ((s.rank r).pass .sending)
          rw [hpoint] at hsum
          simp only [internal, gain, Bool.toNat_true, SyncRank.pass, SyncPoint.left] at hsum ⊢
          omega
      · rename_i hpoint
        cases h
        have hsum := left_setRank (s := s) (r := r) ((s.rank r).pass .outside)
        rw [hpoint] at hsum
        simp only [internal, gain, Bool.toNat_true, SyncRank.pass, SyncPoint.left] at hsum ⊢
        omega
      all_goals cases h
    · cases h
  | ssend r fill =>
    rw [step, ssend] at h
    split at h
    · rename_i hpoint
      cases h
      have hsum := left_setRank (s := s) (r := r) ((s.rank r).setPoint .waiting).give
      have hlink : ((s.setRank r ((s.rank r).setPoint .waiting).give).setLink r
          (s.link r ++ [(s.rank r).stats.serialize fill])).left =
          (s.setRank r ((s.rank r).setPoint .waiting).give).left := rfl
      rw [hpoint] at hsum
      simp only [internal, gain, Bool.toNat_true, SyncRank.setPoint, SyncRank.give,
        SyncPoint.left] at hsum hlink ⊢
      omega
    · cases h
  | ssendReturns r =>
    rw [step, ssendReturns] at h
    split at h
    · rename_i hwaiting
      cases h
      have hsum := left_setRank (s := s) (r := r) ((s.rank r).setPoint .leaving)
      rw [hwaiting.1] at hsum
      simp only [internal, gain, Bool.toNat_true, setPoint, SyncRank.setPoint, SyncPoint.left]
        at hsum ⊢
      omega
    · cases h
  | recv =>
    rw [step, recv] at h
    split at h
    · rename_i next hpoint
      split at h
      · rename_i hnext
        split at h
        · cases h
        · rename_i packet packets hlink
          split at h
          · cases h
          · rename_i stats hread
            cases h
            have hsum := left_setRank (s := s) (r := 0)
              ((s.rank 0).setPoint (.gathering (next + 1)))
            have hpush : (((s.setLink ⟨next, hnext⟩ packets).setPoint 0
                (.gathering (next + 1))).push stats).left =
                (s.setRank 0 ((s.rank 0).setPoint (.gathering (next + 1)))).left := rfl
            rw [hpoint] at hsum
            simp only [internal, gain, Bool.toNat_true, SyncRank.setPoint, SyncPoint.left]
              at hsum hpush ⊢
            omega
      · cases h
    all_goals cases h
  | gathered =>
    rw [step, gathered] at h
    split at h
    · rename_i next hpoint
      split at h
      · cases h
      · cases h
        have hsum := left_setRank (s := s) (r := 0) ((s.rank 0).setPoint .leaving)
        rw [hpoint] at hsum
        simp only [internal, gain, Bool.toNat_true, setPoint, SyncRank.setPoint, SyncPoint.left]
          at hsum ⊢
        omega
    all_goals cases h

def GoesOn (s : SyncState n) : Prop := ∃ e t, internal e = true ∧ step e s = .moved t

theorem goesOn_of_isOpen (h : Barriers.IsOpen s.gate r) : GoesOn s := by
  have hinside : (s.rank r).point.inside = true := h.1
  have hmoves : ∃ t, s.passBarrier r = .moved t := by
    rw [passBarrier, if_pos h]
    cases hpoint : (s.rank r).point with
    | entering =>
      simp only
      split
      · exact ⟨_, rfl⟩
      · exact ⟨_, rfl⟩
    | leaving => exact ⟨_, rfl⟩
    | outside | sending | waiting | gathering next =>
      rw [hpoint] at hinside
      cases hinside
  obtain ⟨t, ht⟩ := hmoves
  exact ⟨.passBarrier r, t, rfl, ht⟩

theorem goesOn_of_sending (h : (s.rank r).point = .sending) : GoesOn s :=
  ⟨.ssend r fun _ => 0, _, rfl, if_pos h⟩

theorem goesOn_of_waiting (h : (s.rank r).point = .waiting) (hlink : s.link r = []) : GoesOn s :=
  ⟨.ssendReturns r, _, rfl, if_pos ⟨h, hlink⟩⟩

theorem Synchronized.passed_eq (hs : s.Synchronized) (r : Fin (n + 1)) :
    (s.rank r).passed = 2 * ((s.rank r).passed / 2) + (s.rank r).point.exchanging.toNat := by
  have h := (hs.proper r).passed
  omega

theorem Synchronized.passed_le (hs : s.Synchronized) (r r' : Fin (n + 1)) :
    (s.rank r).passed ≤ (s.rank r').passed + (s.rank r').point.inside.toNat := hs.together r r'

theorem Synchronized.length_link (hs : s.Synchronized) (hr : r ≠ 0) :
    s.gatheredFrom r + (s.link r).length =
      (s.rank r).passed / 2 + (s.rank r).point.gave.toNat := by
  have hlength := congrArg List.length (hs.link r hr)
  rw [List.length_map, List.length_map, List.length_drop] at hlength
  have hgiven : (s.given r).length = _ := (hs.proper r).given
  have hle := hs.gathered r
  omega

theorem Synchronized.goesOn_of_passed (hs : s.Synchronized) (r r' : Fin (n + 1))
    (hinside : (s.rank r).point.inside = true) (hlt : (s.rank r).passed < (s.rank r').passed) :
    GoesOn s := by
  have hopen : Barriers.IsOpen s.gate r := hs.together.isOpen_of_lt hinside hlt
  exact goesOn_of_isOpen hopen

/-- While rank 0 gathers, it or the rank it waits for goes on. -/
theorem Synchronized.goesOn_of_gathering (hs : s.Synchronized) {next : ℕ}
    (hpoint : (s.rank 0).point = .gathering next) : GoesOn s := by
  obtain ⟨_, hpos, hbound⟩ := (hs.proper 0).worker next hpoint
  by_cases hnext : next < n + 1
  · have hr : (⟨next, hnext⟩ : Fin (n + 1)) ≠ 0 := by
      intro hzero
      have hval : next = 0 := congrArg Fin.val hzero
      omega
    cases hlink : s.link ⟨next, hnext⟩ with
    | cons packet packets =>
      obtain ⟨stats, hread, _⟩ := hs.recv_packet hr hlink
      have hmoves : ∃ t, s.recv = .moved t := by
        rw [SyncState.recv, hpoint]
        simp only [dif_pos hnext, hlink, hread]
        exact ⟨_, rfl⟩
      obtain ⟨t, ht⟩ := hmoves
      exact ⟨.recv, t, rfl, ht⟩
    | nil =>
      -- Its statistics have not been sent yet.
      have hfrom : s.gatheredFrom ⟨next, hnext⟩ = (s.rank 0).passed / 2 := by
        rw [gatheredFrom, hpoint]
        exact congrArg _ (if_neg (Nat.lt_irrefl next))
      have hlength := hs.length_link hr
      rw [hlink, hfrom, List.length_nil] at hlength
      have hzero := hs.passed_eq 0
      have hworker := hs.passed_eq ⟨next, hnext⟩
      have hle := hs.passed_le 0 ⟨next, hnext⟩
      rw [hpoint] at hzero
      cases hat : (s.rank ⟨next, hnext⟩).point with
      | sending => exact goesOn_of_sending hat
      | entering =>
        rw [hat] at hlength hworker hle
        apply hs.goesOn_of_passed ⟨next, hnext⟩ 0
        · rw [hat]
          rfl
        · simp only [SyncPoint.exchanging, SyncPoint.gave, SyncPoint.inside, Bool.toNat_true,
            Bool.toNat_false] at hzero hworker hlength hle
          omega
      | outside | waiting | leaving =>
        rw [hat] at hlength hworker hle
        simp only [SyncPoint.exchanging, SyncPoint.gave, SyncPoint.inside, Bool.toNat_true,
          Bool.toNat_false] at hzero hworker hlength hle
        omega
      | gathering next' => exact absurd ((hs.proper _).worker next' hat).1 hr
  · have hmoves : ∃ t, s.gathered = .moved t := by
      rw [SyncState.gathered, hpoint]
      simp only [if_neg hnext]
      exact ⟨_, rfl⟩
    obtain ⟨t, ht⟩ := hmoves
    exact ⟨.gathered, t, rfl, ht⟩

/-- A rank whose message has not been received is waited for: rank 0 goes on to gather. -/
theorem Synchronized.goesOn_of_unreceived (hs : s.Synchronized) (hr : r ≠ 0)
    (hpoint : (s.rank r).point = .waiting) (hlink : s.link r ≠ []) : GoesOn s := by
  have hlength := hs.length_link hr
  have hpos := List.length_pos_iff.mpr hlink
  have hzero := hs.passed_eq 0
  have hworker := hs.passed_eq r
  have hle := hs.passed_le 0 r
  have hle' := hs.passed_le r 0
  rw [hpoint] at hlength hworker hle
  rw [gatheredFrom] at hlength
  cases hat : (s.rank 0).point with
  | gathering next => exact hs.goesOn_of_gathering hat
  | sending => exact absurd hat ((hs.proper 0).center rfl).1
  | waiting => exact absurd hat ((hs.proper 0).center rfl).2
  | entering =>
    rw [hat] at hzero hle'
    apply hs.goesOn_of_passed 0 r
    · rw [hat]
      rfl
    · simp only [SyncPoint.exchanging, SyncPoint.gave, SyncPoint.inside, Bool.toNat_true,
        Bool.toNat_false] at hzero hworker hlength hle hle'
      omega
  | outside =>
    rw [hat] at hzero hle'
    simp only [SyncPoint.exchanging, SyncPoint.gave, SyncPoint.inside, Bool.toNat_true,
      Bool.toNat_false] at hzero hworker hlength hle hle'
    omega
  | leaving =>
    have hlt : (r : ℕ) < SyncPoint.leaving.progress n := r.isLt
    rw [hat] at hzero hle'
    rw [hat, if_pos hlt] at hlength
    simp only [SyncPoint.exchanging, SyncPoint.gave, SyncPoint.inside, Bool.toNat_true,
      Bool.toNat_false] at hzero hworker hlength hle hle'
    omega

theorem Synchronized.goesOn_of_leaving (hs : s.Synchronized)
    (hbusy : ∀ r, (s.rank r).point = .outside ∨ (s.rank r).point = .entering ∨
      (s.rank r).point = .leaving) (hpoint : (s.rank r).point = .leaving) : GoesOn s := by
  by_cases hopen : Barriers.IsOpen s.gate r
  · exact goesOn_of_isOpen hopen
  · have hinside : (s.gate r).inside = true := congrArg SyncPoint.inside hpoint
    have hlate : ∃ r', (s.gate r').arrived ≤ (s.gate r).passed := by
      by_contra hnone
      refine hopen ⟨hinside, ?_⟩
      intro r'
      exact Nat.lt_of_not_le fun hle => hnone ⟨r', hle⟩
    obtain ⟨r', hr'⟩ := hlate
    have hlate : (s.rank r').passed + (s.rank r').point.inside.toNat ≤ (s.rank r).passed := hr'
    have hworker := hs.passed_eq r
    have hother := hs.passed_eq r'
    have hle := hs.passed_le r r'
    rw [hpoint] at hworker
    obtain hat | hat | hat := hbusy r'
    · rw [hat] at hlate hother hle
      simp only [SyncPoint.exchanging, SyncPoint.inside, Bool.toNat_true, Bool.toNat_false]
        at hworker hother hlate hle
      omega
    · rw [hat] at hlate
      apply hs.goesOn_of_passed r' r
      · rw [hat]
        rfl
      · exact hlate
    · rw [hat] at hlate hother hle
      simp only [SyncPoint.exchanging, SyncPoint.inside, Bool.toNat_true]
        at hworker hother hlate hle
      omega

theorem Synchronized.goesOn (hs : s.Synchronized) : Rests s ∨ GoesOn s := by
  by_cases hgoes : GoesOn s
  · exact Or.inr hgoes
  · have hbusy : ∀ r, (s.rank r).point = .outside ∨ (s.rank r).point = .entering ∨
        (s.rank r).point = .leaving := by
      intro r
      cases hpoint : (s.rank r).point with
      | outside => exact Or.inl rfl
      | entering => exact Or.inr (Or.inl rfl)
      | leaving => exact Or.inr (Or.inr rfl)
      | sending => exact absurd (goesOn_of_sending hpoint) hgoes
      | gathering next =>
        obtain rfl := ((hs.proper r).worker next hpoint).1
        exact absurd (hs.goesOn_of_gathering hpoint) hgoes
      | waiting =>
        have hr : r ≠ 0 := fun hr => ((hs.proper r).center hr).2 hpoint
        by_cases hlink : s.link r = []
        · exact absurd (goesOn_of_waiting hpoint hlink) hgoes
        · exact absurd (hs.goesOn_of_unreceived hr hpoint hlink) hgoes
    have hpoints : ∀ r, (s.rank r).point = .outside ∨ (s.rank r).point = .entering := by
      intro r
      obtain hpoint | hpoint | hpoint := hbusy r
      · exact Or.inl hpoint
      · exact Or.inr hpoint
      · exact absurd (hs.goesOn_of_leaving hbusy hpoint) hgoes
    refine Or.inl ⟨hpoints, ?_⟩
    by_contra hall
    have hinside : ∀ r, (s.gate r).inside = true := by
      intro r
      obtain hpoint | hpoint := hpoints r
      · exact absurd ⟨r, hpoint⟩ hall
      · exact congrArg SyncPoint.inside hpoint
    obtain ⟨r, hopen⟩ := Barriers.exists_isOpen hinside
    exact hgoes (goesOn_of_isOpen hopen)

theorem Synchronized.returned (hs : s.Synchronized) (hrests : Rests s)
    (hcalls : ∀ r r', s.calls r = s.calls r') (r : Fin (n + 1)) : (s.rank r).point = .outside := by
  obtain ⟨r', habsent⟩ := hrests.absent
  obtain hpoint | hpoint := hrests.point r
  · exact hpoint
  · have hequal := hcalls r r'
    have hle := hs.passed_le r' r
    have hself := hs.passed_eq r
    have hother := hs.passed_eq r'
    rw [calls, calls, hpoint, habsent, if_pos rfl, if_neg SyncPoint.noConfusion] at hequal
    rw [hpoint] at hle hself
    rw [habsent] at hother
    simp only [SyncPoint.exchanging, SyncPoint.inside, Bool.toNat_true, Bool.toNat_false]
      at hself hother hle
    omega

/-- The ranks rest; if they have made the same number of calls, they have returned from all of
them, and rank 0 has the statistics of each rank for each call. -/
structure Settled (s : SyncState n) : Prop where
  rests : Rests s
  returned : (∀ r r', s.calls r = s.calls r') → ∀ r, (s.rank r).point = .outside
  complete : (∀ r r', s.calls r = s.calls r') → ∀ r,
    s.statsVector.length = (n + 1) * (s.rank r).given.length ∧
      ∀ j, j < (s.rank r).given.length →
        s.statsVector[(n + 1) * j + r]? = (s.rank r).given[j]?

theorem Synchronized.settled (hs : s.Synchronized) (hrests : Rests s) : Settled s where
  rests := hrests
  returned hcalls := hs.returned hrests hcalls
  complete hcalls r := by
    have hout := hs.returned hrests hcalls
    have hgiven : (s.rank r).given.length = s.calls r := by
      rw [calls, hout r, if_pos rfl, (hs.proper r).given, hout r]
      rfl
    have hlength : s.statsVector.length = (n + 1) * (s.rank r).given.length := by
      rw [hs.length, total, hout 0, hgiven, hcalls r 0, calls, hout 0, if_pos rfl]
      rfl
    refine ⟨hlength, ?_⟩
    intro j hj
    apply hs.entries j r
    rw [hlength]
    calc (n + 1) * j + r < (n + 1) * j + (n + 1) := Nat.add_lt_add_left r.isLt _
      _ = (n + 1) * (j + 1) := (Nat.mul_succ _ _).symm
      _ ≤ (n + 1) * (s.rank r).given.length := Nat.mul_le_mul_left _ hj

/-- Rank 0 understands every packet and lists the statistics of each rank in the order of its
calls, row by row. The steps within the call come to an end, in whatever order they are made;
only the start of another call adds to them. -/
theorem synchronizeStats_gathers (h : (syncMachine n).Reachable s) :
    (∀ e fault, step e s ≠ .raised fault) ∧
    (∀ j (r : Fin (n + 1)), (n + 1) * j + r < s.statsVector.length →
      s.statsVector[(n + 1) * j + r]? = (s.rank r).given[j]?) ∧
    (syncMachine n).Completes internal gain left Settled s ∧
    ∃ ls t, (∀ l ∈ ls, internal l = true) ∧ (syncMachine n).run ls s = some t ∧ Settled t := by
  obtain ⟨hs, hsure⟩ := synchronized_of_reachable h
  have hcompletes : (syncMachine n).Completes internal gain left Settled s := by
    apply Machine.completes_of (I := Synchronized)
    · intro s e t ht
      exact step_left ht
    · intro s e t hs _ ht
      exact (synchronized_step hs).keeps.of_moved ht
    · intro s hs
      obtain hrests | hgoes := hs.goesOn
      · exact Or.inl (hs.settled hrests)
      · exact Or.inr hgoes
    · exact hs
  refine ⟨hsure, hs.entries, hcompletes, hcompletes.exists_final ?_⟩
  intro e he
  cases e with
  | work r stats => cases he
  | synchronizeStats r => cases he
  | passBarrier | ssend | ssendReturns | recv | gathered => rfl

def gathersFirst (center other : Fin 2) : List (SyncEvent 1) :=
  [.work other { DefaultMpiStats.initial 1 with sentTaskCount := 5 }, .synchronizeStats center,
    .synchronizeStats other, .passBarrier other, .ssend other fun _ => 3, .passBarrier center,
    .recv]

theorem synchronizeStats_gathers_first : ∃ s : SyncState 1,
    (syncMachine 1).run (gathersFirst 0 1) start = some s ∧ s.statsVector.length = 2 ∧
      s.statsVector[1]? = (s.rank 1).given[0]? ∧ (s.rank 1).given.length = 1 ∧
      ∃ ls t, (∀ l ∈ ls, internal l = true) ∧ (syncMachine 1).run ls s = some t ∧ Settled t := by
  have hrun : ∃ s, (syncMachine 1).run (gathersFirst 0 1) start = some s ∧
      s.statsVector.length = 2 ∧ (s.rank 1).given.length = 1 := ⟨_, rfl, rfl, rfl⟩
  obtain ⟨s, hs, hlength, hgiven⟩ := hrun
  have hstart : (syncMachine 1).Reachable start := .start rfl
  obtain ⟨hsure, hentries, hcompletes, hfinal⟩ := synchronizeStats_gathers (hstart.run hs)
  refine ⟨s, hs, hlength, ?_, hgiven, hfinal⟩
  apply hentries 0 1
  rw [hlength]
  decide

end SyncState

end Gempba
