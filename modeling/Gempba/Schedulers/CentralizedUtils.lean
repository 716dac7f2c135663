import Gempba.Schedulers.Messages

/-!
# Dispatch of queued tasks to available ranks

The queue is any type with a `pop`; the calls of `p_send` are returned as a
list, in their order, and the returned count is its length.
-/

namespace Gempba

set_option autoImplicit false

namespace World

/-- The ranks the dispatch loop walks over: all but the center, in increasing order. -/
def workers (W : World) : List (WorkerRank W) :=
  (List.finRange W.size).filterMap fun r => if h : r ≠ W.center then some ⟨r, h⟩ else none

theorem mem_workers {W : World} (w : WorkerRank W) : w ∈ W.workers := by
  refine List.mem_filterMap.mpr ⟨w.val, List.mem_finRange _, ?_⟩
  rw [dif_pos w.property]

theorem nodup_workers (W : World) : W.workers.Nodup := by
  refine (List.nodup_finRange _).filterMap fun a b w ha hb => ?_
  simp only [Option.mem_def, Option.dite_none_right_eq_some, Option.some.injEq] at ha hb
  obtain ⟨_, rfl⟩ := ha
  obtain ⟨_, hb⟩ := hb
  exact (congrArg Subtype.val hb).symm

theorem pairwise_workers (W : World) : W.workers.Pairwise fun v w => v.val < w.val := by
  refine (List.pairwise_lt_finRange W.size).filterMap _ fun a b hab v ha w hb => ?_
  simp only [Option.dite_none_right_eq_some, Option.some.injEq] at ha hb
  obtain ⟨_, rfl⟩ := ha
  obtain ⟨_, rfl⟩ := hb
  exact hab

theorem card_workers (W : World) : Fintype.card (WorkerRank W) = W.size - 1 := by
  rw [Fintype.card_subtype_compl, Fintype.card_fin, Fintype.card_subtype_eq]

end World

structure Dispatched (Q τ ρ : Type) where
  sent : List (ρ × τ)
  queue : Q
  states : ρ → ProcessState

section Dispatch

variable {Q τ ρ : Type} [DecidableEq ρ] (pop : Q → Option (τ × Q))

/-- `pop` gives the top and the rest, `none` on an empty queue, where the loop stops. -/
def dispatchToAvailable : List ρ → Q → (ρ → ProcessState) → Dispatched Q τ ρ
  | [], queue, states => ⟨[], queue, states⟩
  | rank :: ranks, queue, states =>
    match pop queue with
    | none => ⟨[], queue, states⟩
    | some (task, rest) =>
      if states rank ≠ .AVAILABLE_STATE then dispatchToAvailable ranks queue states
      else
        let d := dispatchToAvailable ranks rest (Function.update states rank .ASSIGNED_STATE)
        { d with sent := (rank, task) :: d.sent }

/-- What is sent and what remains make up the queue, whatever its order. -/
theorem dispatchToAvailable_contents (contents : Q → Multiset τ)
    (hpop : ∀ q t q', pop q = some (t, q') → contents q = t ::ₘ contents q')
    (ranks : List ρ) (queue : Q) (states : ρ → ProcessState) :
    ((dispatchToAvailable pop ranks queue states).sent.map Prod.snd : Multiset τ) +
      contents (dispatchToAvailable pop ranks queue states).queue = contents queue := by
  induction ranks generalizing queue states with
  | nil => simp [dispatchToAvailable]
  | cons rank ranks ih =>
    rw [dispatchToAvailable]
    cases htop : pop queue with
    | none => simp
    | some top =>
      obtain ⟨task, rest⟩ := top
      by_cases hstate : states rank ≠ .AVAILABLE_STATE
      · simpa only [hstate, if_true, ne_eq, not_false_eq_true] using ih queue states
      · have hrest := ih rest (Function.update states rank .ASSIGNED_STATE)
        rw [hpop _ _ _ htop, ← hrest, ← Multiset.cons_add, Multiset.cons_coe]
        simp [hstate]

/-- Each rank served was available and is assigned afterwards; the others keep their state. -/
theorem dispatchToAvailable_states (ranks : List ρ) (queue : Q) (states : ρ → ProcessState) :
    let d := dispatchToAvailable pop ranks queue states
    (d.sent.map Prod.fst).Sublist ranks ∧
      (∀ r ∈ d.sent.map Prod.fst, states r = .AVAILABLE_STATE) ∧
      (d.sent.map Prod.fst).Nodup ∧
      d.states = fun r => if r ∈ d.sent.map Prod.fst then .ASSIGNED_STATE else states r := by
  induction ranks generalizing queue states with
  | nil => simp [dispatchToAvailable]
  | cons rank ranks ih =>
    simp only [dispatchToAvailable]
    cases htop : pop queue with
    | none => simp
    | some top =>
      obtain ⟨task, rest⟩ := top
      obtain hstate | hstate := ne_or_eq (states rank) .AVAILABLE_STATE
      · simp only [hstate, ne_eq, not_false_eq_true, if_true]
        obtain ⟨hsub, havailable, hnodup, hstates⟩ := ih queue states
        exact ⟨hsub.cons rank, havailable, hnodup, hstates⟩
      · simp only [hstate, ne_eq, not_true_eq_false, if_false, List.map_cons]
        obtain ⟨hsub, havailable, hnodup, hstates⟩ :=
          ih rest (Function.update states rank .ASSIGNED_STATE)
        -- a rank that has been served is not available any more
        have hne : ∀ r ∈ (dispatchToAvailable pop ranks rest
            (Function.update states rank .ASSIGNED_STATE)).sent.map Prod.fst, r ≠ rank := by
          rintro r hr rfl
          have hassigned := havailable r hr
          rw [Function.update_self] at hassigned
          cases hassigned
        refine ⟨hsub.cons_cons rank, fun r hr => ?_, ?_, ?_⟩
        · obtain rfl | hr := List.mem_cons.mp hr
          · exact hstate
          · rw [← havailable r hr, Function.update_of_ne (hne r hr)]
        · exact List.nodup_cons.mpr ⟨fun hr => hne rank hr rfl, hnodup⟩
        · rw [hstates]
          funext r
          obtain rfl | hr := eq_or_ne r rank
          · simp
          · simp only [List.mem_cons, hr, false_or, Function.update_of_ne hr]

end Dispatch

end Gempba
