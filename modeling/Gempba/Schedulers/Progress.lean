import Gempba.Schedulers.Centralized
import Gempba.Schedulers.SemiCentralized

/-!
# Termination is not missed

The converse of safety: when nothing is in flight and nobody works, no
acknowledgement is withheld, so that the center has already left its loop.
-/

namespace Gempba

set_option autoImplicit false

theorem SemiCentralized.Invariant.exited {W : World} {s : SemiCentralized.State W}
    (h : SemiCentralized.Invariant s) (htasks : s.network.tasks = 0)
    (hacks : s.network.acks = 0) (hexec : ∀ w, (s.worker w).phase ≠ .executing) :
    s.deficit = 0 ∧ s.centerPhase ≠ .receiving := by
  have hzero := h.sound.deficit_zero htasks hacks hexec
  exact ⟨hzero, fun hphase => h.waiting hphase hzero⟩

theorem Centralized.Invariant.exited {W : World} {s : Centralized.State W}
    (h : Centralized.Invariant s) (htasks : s.network.tasks = 0)
    (hacks : s.network.acks = 0) (hexec : ∀ w, (s.worker w).phase ≠ .executing)
    (hqueue : s.queue = 0) : s.deficit = 0 ∧ s.centerPhase ≠ .receiving := by
  have hzero := h.sound.deficit_zero htasks hacks hexec
  exact ⟨hzero, fun hphase => h.waiting hphase ⟨hzero, hqueue⟩⟩

theorem exit_not_missed (W : World) :
    (∀ s, (SemiCentralized.machine W).Reachable s → s.network.tasks = 0 → s.network.acks = 0 →
      (∀ w, (s.worker w).phase ≠ .executing) → s.deficit = 0 ∧ s.centerPhase ≠ .receiving) ∧
    ∀ s, (Centralized.machine W).Reachable s → s.network.tasks = 0 → s.network.acks = 0 →
      (∀ w, (s.worker w).phase ≠ .executing) → s.queue = 0 →
        s.deficit = 0 ∧ s.centerPhase ≠ .receiving :=
  ⟨fun _ h => (SemiCentralized.invariant_of_reachable h).exited,
    fun _ h => (Centralized.invariant_of_reachable h).exited⟩

theorem exit_not_missed_pair :
    (((SemiCentralized.machine .pair).run SemiCentralized.seedOnly
      (SemiCentralized.sendSeed ⟨[7], 3⟩)).get SemiCentralized.seedOnly_runs).centerPhase ≠
        .receiving ∧
    (((Centralized.machine .pair).run Centralized.oneTask
      (Centralized.sendSeed ⟨[7], 3⟩)).get Centralized.oneTask_runs).centerPhase ≠ .receiving :=
  ⟨((exit_not_missed .pair).1 _ SemiCentralized.reachable_seedOnly (by decide) (by decide)
      (by decide)).2,
    ((exit_not_missed .pair).2 _ Centralized.reachable_oneTask (by decide) (by decide)
      (by decide) (by decide)).2⟩

end Gempba
