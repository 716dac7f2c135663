import Gempba.Schedulers.Coordinator

/-!
# Idle ranks and running ranks without a next

`AVAILABLE_STATE` pairs the reporter with any running rank that has no next.
`RUNNING_STATE` takes the reporter out of the list of the rank that fed it and
looks for a next of the reporter alone, so the former may be left without one
while other ranks wait.
-/

namespace Gempba

set_option autoImplicit false

variable {W : World}

namespace Coordinator

namespace View

/-- No rank is available while a running one has no next. -/
def Conserved (v : View W) : Prop :=
  ∀ a p : WorkerRank W, v.state a = .AVAILABLE_STATE → v.state p = .RUNNING_STATE →
    v.family.children p ≠ []

/-- The report of `w` takes the only next from the running rank `p`, and an available rank is
left when `w` has been served. -/
structure Strands (v : View W) (w p a : WorkerRank W) : Prop where
  running : v.state p = .RUNNING_STATE
  only : v.family.children p = [w.val]
  available : v.state a = .AVAILABLE_STATE
  ne : a ≠ w
  left : v.family.children w ≠ [] ∨ ∃ a', a' ≠ w ∧ a' ≠ a ∧ v.state a' = .AVAILABLE_STATE

variable {v v' : View W} {w p q : WorkerRank W} {sent : List (Assignment W)}

theorem report_state_of_ne {r : WorkerRank W} (hr : r ≠ w) (x : ProcessState) :
    (v.report w x).state r = v.state r :=
  Function.update_of_ne (fun h => hr (Subtype.ext h)) ..

theorem report_state_self (x : ProcessState) : (v.report w x).state w = x :=
  Function.update_self ..

/-- A rank that has children before a report and none after it has just the reporter. -/
theorem children_report (x : ProcessState) (hp : v.family.children p ≠ []) :
    (v.report w x).family.children p = [] ↔ v.family.children p = [w.val] := by
  change (v.family.children p).erase w.val = [] ↔ _
  constructor
  · intro hErase
    obtain hNil | hOnly := List.erase_eq_nil_iff.mp hErase
    · exact absurd hNil hp
    · exact hOnly
  · intro hOnly
    rw [hOnly, List.erase_cons_head]

/-- Whoever reports to be available, the ranks are paired again. -/
theorem Conserved.joins (h : v.Conserved) (hJoins : (v.report w .AVAILABLE_STATE).Joins w v' sent) :
    v'.Conserved := by
  cases hJoins with
  | nobody hnone =>
    intro a p _ hp
    exact hnone p hp
  | pair q hq hnext horphan =>
    intro a p ha hp
    have hqw : q ≠ w := by
      rintro rfl
      rw [report_state_self] at hq
      cases hq
    have hSelf : Function.update (v.report w .AVAILABLE_STATE).state w.val .ASSIGNED_STATE w.val =
        .ASSIGNED_STATE := Function.update_self ..
    have haw : a ≠ w := by
      rintro rfl
      cases hSelf.symm.trans ha
    have hpw : p ≠ w := by
      rintro rfl
      cases hSelf.symm.trans hp
    have hState : ∀ r : WorkerRank W, r ≠ w → Function.update
        (v.report w .AVAILABLE_STATE).state w.val .ASSIGNED_STATE r.val = v.state r := by
      intro r hr
      rw [Function.update_of_ne (fun h => hr (Subtype.ext h)), report_state_of_ne hr]
    have ha : v.state a = .AVAILABLE_STATE := (hState a haw).symm.trans ha
    have hp : v.state p = .RUNNING_STATE := (hState p hpw).symm.trans hp
    have hq : v.state q = .RUNNING_STATE := (report_state_of_ne hqw _).symm.trans hq
    intro hNone
    obtain rfl | hpq := eq_or_ne p q
    · rw [show (Forest.Ordered.attach _ p.val w.val horphan).children p.val = _ from
        Function.update_self ..] at hNone
      exact List.append_ne_nil_of_right_ne_nil _ (List.cons_ne_nil _ _) hNone
    · rw [show (Forest.Ordered.attach _ q.val w.val horphan).children p.val = _ from
        Function.update_of_ne (fun h => hpq (Subtype.ext h)) ..] at hNone
      have hOnly := (children_report _ (h a p ha hp)).mp hNone
      have hOnly' := (children_report _ (h a q ha hq)).mp hnext
      -- Both lists hold the reporter, which has one parent.
      have hParent : v.family.parent w = some p.val :=
        (v.family.mem_children p w).mp (by rw [hOnly]; exact List.mem_singleton_self _)
      have hParent' : v.family.parent w = some q.val :=
        (v.family.mem_children q w).mp (by rw [hOnly']; exact List.mem_singleton_self _)
      exact hpq (Subtype.ext (Option.some.inj (hParent.symm.trans hParent')))

/-- The pairing after `RUNNING_STATE` misses exactly a rank that the reporter strands. -/
theorem Conserved.hires (h : v.Conserved) (hOwn : v.family.parent w ≠ some w.val)
    (hHires : (v.report w .RUNNING_STATE).Hires w v' sent) :
    v'.Conserved ↔ ∀ p a, ¬v.Strands w p a := by
  have hChildren : (v.report w .RUNNING_STATE).family.children w = v.family.children w :=
    v.family.detach_children_of_ne hOwn
  have hNotOnly : v.family.children w ≠ [w.val] := by
    intro hOnly
    apply hOwn
    rw [← v.family.mem_children, hOnly]
    exact List.mem_singleton_self _
  have hSelf := report_state_self (v := v) (w := w) .RUNNING_STATE
  -- A rank other than the reporter has lost its last child if it had just the reporter.
  have hStranded : ∀ {p a : WorkerRank W}, a ≠ w → v.state a = .AVAILABLE_STATE →
      (v.report w .RUNNING_STATE).state p = .RUNNING_STATE → p ≠ w →
      (v.report w .RUNNING_STATE).family.children p = [] →
      v.state p = .RUNNING_STATE ∧ v.family.children p = [w.val] := by
    intro p a haw ha hp hpw hNone
    rw [report_state_of_ne hpw] at hp
    exact ⟨hp, (children_report _ (h a p ha hp)).mp hNone⟩
  have hEmptied : ∀ {p : WorkerRank W}, v.family.children p = [w.val] →
      (v.report w .RUNNING_STATE).family.children p = [] := by
    intro p hOnly
    refine (children_report _ ?_).mpr hOnly
    rw [hOnly]
    exact List.cons_ne_nil _ _
  cases hHires with
  | hasNext hnext =>
    rw [hChildren] at hnext
    constructor
    · intro hConserved p a hStrands
      have hpw : p ≠ w := by
        rintro rfl
        exact hNotOnly hStrands.only
      apply hConserved a p
      · rw [report_state_of_ne hStrands.ne]
        exact hStrands.available
      · rw [report_state_of_ne hpw]
        exact hStrands.running
      · exact hEmptied hStrands.only
    · intro hNever a p ha hp hNone
      have haw : a ≠ w := by
        rintro rfl
        rw [hSelf] at ha
        cases ha
      have hpw : p ≠ w := by
        rintro rfl
        rw [hChildren] at hNone
        exact hnext hNone
      rw [report_state_of_ne haw] at ha
      obtain ⟨hRunning, hOnly⟩ := hStranded haw ha hp hpw hNone
      exact hNever p a ⟨hRunning, hOnly, ha, haw, .inl hnext⟩
  | nobody hnext hnone =>
    constructor
    · intro _ p a hStrands
      apply hnone a
      rw [report_state_of_ne hStrands.ne]
      exact hStrands.available
    · intro _ a p ha
      exact absurd ha (hnone a)
  | pair r hnext hr horphan =>
    have hrw : r ≠ w := by
      rintro rfl
      rw [hSelf] at hr
      cases hr
    have hAvailable : v.state r = .AVAILABLE_STATE := (report_state_of_ne hrw _).symm.trans hr
    have hTaken : Function.update (v.report w .RUNNING_STATE).state r.val .ASSIGNED_STATE r.val =
        .ASSIGNED_STATE := Function.update_self ..
    have hState : ∀ q : WorkerRank W, q ≠ r → Function.update
        (v.report w .RUNNING_STATE).state r.val .ASSIGNED_STATE q.val =
          (v.report w .RUNNING_STATE).state q :=
      fun q hq => Function.update_of_ne (fun h => hq (Subtype.ext h)) ..
    have hList : ∀ q : WorkerRank W, q ≠ w →
        ((v.report w .RUNNING_STATE).family.attach w.val r.val horphan).children q.val =
          (v.report w .RUNNING_STATE).family.children q :=
      fun q hq => Function.update_of_ne (fun h => hq (Subtype.ext h)) ..
    have hOwnList : ((v.report w .RUNNING_STATE).family.attach w.val r.val horphan).children w.val =
        (v.report w .RUNNING_STATE).family.children w ++ [r.val] := Function.update_self ..
    rw [hChildren] at hnext
    constructor
    · intro hConserved p a hStrands
      have hpw : p ≠ w := by
        rintro rfl
        exact hNotOnly hStrands.only
      have hpr : p ≠ r := by
        rintro rfl
        rw [hStrands.running] at hAvailable
        cases hAvailable
      -- One of the two available ranks is not the one that was taken.
      obtain ⟨a', hne, hAvail, ha'⟩ : ∃ a', a' ≠ w ∧ v.state a' = .AVAILABLE_STATE ∧ a' ≠ r := by
        obtain hnext' | ⟨a', hne, haa, hAvail⟩ := hStrands.left
        · exact absurd hnext hnext'
        · obtain rfl | har := eq_or_ne a r
          · exact ⟨a', hne, hAvail, haa⟩
          · exact ⟨a, hStrands.ne, hStrands.available, har⟩
      apply hConserved a' p
      · exact (hState a' ha').trans ((report_state_of_ne hne _).trans hAvail)
      · exact (hState p hpr).trans ((report_state_of_ne hpw _).trans hStrands.running)
      · exact (hList p hpw).trans (hEmptied hStrands.only)
    · intro hNever a p ha hp hNone
      have har : a ≠ r := by
        rintro rfl
        cases hTaken.symm.trans ha
      have ha := (hState a har).symm.trans ha
      have haw : a ≠ w := by
        rintro rfl
        cases hSelf.symm.trans ha
      have hpr : p ≠ r := by
        rintro rfl
        cases hTaken.symm.trans hp
      have hp := (hState p hpr).symm.trans hp
      have hpw : p ≠ w := by
        rintro rfl
        exact List.append_ne_nil_of_right_ne_nil _ (List.cons_ne_nil _ _)
          (hOwnList.symm.trans hNone)
      rw [report_state_of_ne haw] at ha
      obtain ⟨hRunning, hOnly⟩ := hStranded haw ha hp hpw ((hList p hpw).symm.trans hNone)
      exact hNever p a ⟨hRunning, hOnly, ha, haw, .inr ⟨r, hrw, har.symm, hAvailable⟩⟩

end View

/-- No rank is available while a running one has no next. -/
def Conserved (c : Coordinator W) : Prop :=
  ∀ a p : WorkerRank W, c.processState a = .AVAILABLE_STATE →
    c.processState p = .RUNNING_STATE → c.processTree.hasNext p = true

/-- Handling the `RUNNING_STATE` of `w` takes the only next from a running rank, while more ranks
are available than `w` itself is given: none if it has a next, otherwise one. -/
def Strands (c : Coordinator W) (w : WorkerRank W) : Prop :=
  ∃ p a : WorkerRank W, c.processState p = .RUNNING_STATE ∧
    c.processTree.childrenOf p = some [w.val] ∧
    c.processState a = .AVAILABLE_STATE ∧ a ≠ w ∧
    (c.processTree.hasNext w = true ∨
      ∃ a' : WorkerRank W, a' ≠ w ∧ a' ≠ a ∧ c.processState a' = .AVAILABLE_STATE)

/-- The reports that strand no running rank. -/
def Spares (c : Coordinator W) : Event W → Prop
  | .running w => ¬c.Strands w
  | .available _ _ => True

namespace Refines

variable {c c' : Coordinator W} {v : View W}

theorem conserved_iff (h : c.Refines v) : c.Conserved ↔ v.Conserved := by
  simp only [Conserved, View.Conserved, h.state, h.tree.hasNext_iff]

theorem strands_iff (h : c.Refines v) (w : WorkerRank W) :
    c.Strands w ↔ ∃ p a, v.Strands w p a := by
  simp only [Strands, h.state, h.tree.hasNext_iff, h.tree.childrenOf_eq, Option.some.injEq]
  constructor
  · rintro ⟨p, a, hp, hOnly, ha, hne, hLeft⟩
    exact ⟨p, a, hp, hOnly, ha, hne, hLeft⟩
  · rintro ⟨p, a, hStrands⟩
    exact ⟨p, a, hStrands.running, hStrands.only, hStrands.available, hStrands.ne, hStrands.left⟩

/-- A handler leaves the ranks paired exactly when it spares the running ranks. -/
theorem handle_conserved (h : c.Refines v) (hv : v.Consistent) (hc : c.Conserved) (e : Event W)
    {sent : List (Assignment W)} (hok : handle e c = .ok (c', sent)) :
    c'.Conserved ↔ c.Spares e := by
  rw [h.conserved_iff] at hc
  cases e with
  | running w =>
    obtain ⟨c₁, v₁, sent₁, hok₁, hc₁, hHires⟩ := h.processRunning hv w
    cases hok.symm.trans hok₁
    have hOwn : v.family.parent w ≠ some w.val := fun hw => hv.acyclic w (.single hw)
    rw [hc₁.conserved_iff, hc.hires hOwn hHires, Spares, h.strands_iff]
    exact ⟨fun hNever ⟨p, a, hStrands⟩ => hNever p a hStrands,
      fun hNever p a hStrands => hNever ⟨p, a, hStrands⟩⟩
  | available w offset =>
    obtain ⟨c₁, v₁, sent₁, hok₁, hc₁, hJoins⟩ := h.processAvailable hv w offset
    cases hok.symm.trans hok₁
    rw [hc₁.conserved_iff]
    exact iff_of_true (hc.joins hJoins) trivial

end Refines

/-- In a run whose `RUNNING_STATE` reports strand no running rank, available and running ranks
are always paired; and a report breaks this if it strands one. -/
theorem conserved_iff_spares (W : World) :
    (∀ c, (machine W).ReachableWhere (fun c e => c.Spares e) c → c.Conserved) ∧
      ∀ c, (machine W).Reachable c → c.Conserved → ∀ e c' sent, handle e c = .ok (c', sent) →
        (c'.Conserved ↔ c.Spares e) := by
  have hStep : ∀ c, (machine W).Reachable c → c.Conserved → ∀ e c' sent,
      handle e c = .ok (c', sent) → (c'.Conserved ↔ c.Spares e) := by
    intro c hc hConserved e c' sent hok
    obtain ⟨v, hRefines, hConsistent⟩ := consistent_of_reachable hc
    exact hRefines.handle_conserved hConsistent hConserved e hok
  refine ⟨fun c h => h.invariant ?_ ?_, hStep⟩
  · rintro c ⟨sent, hstart⟩
    obtain ⟨c₀, v, hok, hc, -, hfirst, -, hassigned⟩ := start_eq W
    rw [hstart] at hok
    cases hok
    rw [hc.conserved_iff]
    intro a p ha
    obtain rfl | hne := eq_or_ne a W.firstWorker
    · cases hfirst.symm.trans ha
    · cases (hassigned a hne).symm.trans ha
  · intro c e c' hReach hConserved hSpares hMoved
    simp only [machine] at hMoved
    split at hMoved
    · rename_i hok
      cases hMoved
      exact (hStep c hReach.reachable hConserved e _ _ hok).mpr hSpares
    · cases hMoved

instance (c : Coordinator W) (w : WorkerRank W) : Decidable (c.Strands w) :=
  inferInstanceAs (Decidable (∃ _ _, _))

instance (c : Coordinator W) : ∀ e, Decidable (c.Spares e)
  | .running w => inferInstanceAs (Decidable (¬c.Strands w))
  | .available _ _ => .isTrue trivial

/-! With five ranks the topology is 1 → [2, 3], 2 → [4]. -/

theorem two_le_five : 2 ≤ 5 := by decide

def five : World := ⟨5, two_le_five⟩

theorem second_ne_center : (⟨2, by decide⟩ : Rank five) ≠ five.center := by decide

theorem third_ne_center : (⟨3, by decide⟩ : Rank five) ≠ five.center := by decide

theorem started_isSome : ((start five).toOption.map Prod.fst).isSome = true := by decide

def started : Coordinator five := ((start five).toOption.map Prod.fst).get started_isSome

theorem initial_started : (machine five).initial started := by
  have hOk : ∀ {x : Handled five} (h : (x.toOption.map Prod.fst).isSome = true),
      ∃ sent, x = .ok ((x.toOption.map Prod.fst).get h, sent) := by
    intro x h
    cases x with
    | error e => cases h
    | ok x => exact ⟨x.2, rfl⟩
  exact hOk started_isSome

/-- Rank 3 starts and finishes while rank 2 is still to start. -/
def finished : List (Event five) :=
  [.running ⟨_, third_ne_center⟩, .available ⟨_, third_ne_center⟩ 0]

/-- Then rank 2 starts. -/
def overtaken : List (Event five) := finished ++ [.running ⟨_, second_ne_center⟩]

theorem finished_runs : ((machine five).run finished started).isSome = true := by decide

theorem overtaken_runs : ((machine five).run overtaken started).isSome = true := by decide

theorem conserved_iff_spares_finished :
    (((machine five).run finished started).get finished_runs).Conserved :=
  (conserved_iff_spares five).1 _
    (Transition.Machine.ReachableWhere.run (.start initial_started) (Option.some_get _).symm
      (by decide))

/-- Rank 2 keeps its next, rank 1 has lost its last, and rank 3 goes on waiting. -/
theorem running_rank_stranded : ∃ c, (machine five).Reachable c ∧ ¬c.Conserved := by
  have hReachable : (machine five).Reachable started := .start initial_started
  refine ⟨((machine five).run overtaken started).get overtaken_runs,
    hReachable.run (Option.some_get _).symm, ?_⟩
  intro hConserved
  exact absurd (hConserved ⟨_, third_ne_center⟩ five.firstWorker (by decide) (by decide))
    (by decide)

end Coordinator

end Gempba
