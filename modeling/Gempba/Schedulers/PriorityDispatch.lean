import Gempba.Library.PriorityQueue
import Gempba.Schedulers.Centralized
import Mathlib.Data.List.Sort

/-!
# Dispatch over a vector of states

The loop as it is written, over a vector of state codes indexed by the rank.
The ranks it serves and the tasks they get are found apart: the available
ranks in increasing order, and what a queue of priorities pops.
-/

namespace Gempba

set_option autoImplicit false

namespace StateVector

structure Dispatched (Q τ : Type) where
  sent : List (ℕ × τ)
  states : List ℤ
  queue : Q
  dispatched : ℕ

section Loop

variable {Q τ : Type} (pop : Q → Option (τ × Q)) (available assigned : ℤ)

/-- The iterations from `rank` on; the list holds the states from that rank on. -/
def dispatchFrom : ℕ → List ℤ → Q → Dispatched Q τ
  | _, [], queue => ⟨[], [], queue, 0⟩
  | rank, state :: states, queue =>
    match pop queue with
    | none => ⟨[], state :: states, queue, 0⟩
    | some (task, rest) =>
      if state ≠ available then
        let d := dispatchFrom (rank + 1) states queue
        { d with states := state :: d.states }
      else
        let d := dispatchFrom (rank + 1) states rest
        ⟨(rank, task) :: d.sent, assigned :: d.states, d.queue, d.dispatched + 1⟩

def dispatchToAvailable : List ℤ → Q → Dispatched Q τ
  | [], queue => ⟨[], [], queue, 0⟩
  | center :: states, queue =>
    let d := dispatchFrom pop available assigned 1 states queue
    { d with states := center :: d.states }

/-- The available ones among the ranks from `rank` on. -/
def availableFrom (rank : ℕ) (states : List ℤ) : List ℕ :=
  (List.range' rank states.length).filter fun r => states[r - rank]? = some available

def availableRanks (states : List ℤ) : List ℕ :=
  (List.range' 1 (states.length - 1)).filter fun r => states[r]? = some available

end Loop

section Equations

variable {Q τ : Type} {pop : Q → Option (τ × Q)} {available assigned : ℤ} {rank : ℕ} {state : ℤ}
  {states : List ℤ} {queue rest : Q} {task : τ}

theorem dispatchFrom_empty (h : pop queue = none) :
    dispatchFrom pop available assigned rank states queue = ⟨[], states, queue, 0⟩ := by
  cases states with
  | nil => rfl
  | cons state states => rw [dispatchFrom, h]

theorem dispatchFrom_skip (h : pop queue = some (task, rest)) (hstate : state ≠ available) :
    dispatchFrom pop available assigned rank (state :: states) queue =
      let d := dispatchFrom pop available assigned (rank + 1) states queue
      { d with states := state :: d.states } := by
  simp only [dispatchFrom, h]
  rw [if_pos hstate]

theorem dispatchFrom_serve (h : pop queue = some (task, rest)) :
    dispatchFrom pop available assigned rank (available :: states) queue =
      let d := dispatchFrom pop available assigned (rank + 1) states rest
      ⟨(rank, task) :: d.sent, assigned :: d.states, d.queue, d.dispatched + 1⟩ := by
  simp only [dispatchFrom, h]
  rw [if_neg (not_not.mpr rfl)]

end Equations

section Spec

variable {available : ℤ} {rank r : ℕ} {state : ℤ} {states : List ℤ}

theorem mem_availableFrom : r ∈ availableFrom available rank states ↔
    rank ≤ r ∧ states[r - rank]? = some available := by
  rw [availableFrom, List.mem_filter, List.mem_range'_1, decide_eq_true_iff]
  constructor
  · rintro ⟨⟨hle, -⟩, hstate⟩
    exact ⟨hle, hstate⟩
  · rintro ⟨hle, hstate⟩
    obtain ⟨hlt, -⟩ := List.getElem?_eq_some_iff.mp hstate
    exact ⟨⟨hle, by omega⟩, hstate⟩

theorem availableFrom_cons : availableFrom available rank (state :: states) =
    if state = available then rank :: availableFrom available (rank + 1) states
    else availableFrom available (rank + 1) states := by
  have hrest : ((List.range' (rank + 1) states.length).filter fun r =>
      (state :: states)[r - rank]? = some available) =
        availableFrom available (rank + 1) states := by
    apply List.filter_congr
    intro r hr
    have hle := (List.mem_range'_1.mp hr).1
    have hpred : r - rank = r - (rank + 1) + 1 := by omega
    rw [hpred, List.getElem?_cons_succ]
  rw [availableFrom, List.length_cons, List.range'_succ, List.filter_cons, hrest, Nat.sub_self,
    List.getElem?_cons_zero]
  simp only [Option.some.injEq, decide_eq_true_eq]

theorem availableRanks_cons (center : ℤ) :
    availableRanks available (center :: states) = availableFrom available 1 states := by
  apply List.filter_congr
  intro r hr
  have hle := (List.mem_range'_1.mp hr).1
  have hpred : r = r - 1 + 1 := by omega
  rw [hpred, List.getElem?_cons_succ, Nat.add_sub_cancel]

theorem pairwise_availableRanks : (availableRanks available states).Pairwise (· < ·) :=
  List.Pairwise.filter _ List.pairwise_lt_range'

end Spec

section Priority

variable {Q τ P : Type} [LinearOrder P] (pq : PriorityQueue Q τ P) (available assigned : ℤ)

/-- The available ranks meet the tasks that the queue pops. -/
theorem dispatchFrom_sent (rank : ℕ) (states : List ℤ) (queue : Q) :
    let ranks := availableFrom available rank states
    let d := dispatchFrom pq.pop available assigned rank states queue
    d.sent = ranks.zip (pq.take ranks.length queue).1 ∧
      d.queue = (pq.take ranks.length queue).2 ∧ d.dispatched = d.sent.length := by
  induction states generalizing rank queue with
  | nil => exact ⟨rfl, rfl, rfl⟩
  | cons state states ih =>
    simp only [availableFrom_cons]
    cases hpop : pq.pop queue with
    | none =>
      rw [PriorityQueue.take_none hpop, dispatchFrom_empty hpop]
      exact ⟨List.zip_nil_right.symm, rfl, rfl⟩
    | some top =>
      obtain ⟨task, rest⟩ := top
      obtain rfl | hstate := eq_or_ne state available
      · obtain ⟨hsent, hqueue, hcount⟩ := ih (rank + 1) rest
        rw [if_pos rfl, List.length_cons, PriorityQueue.take_some hpop, dispatchFrom_serve hpop]
        exact ⟨congrArg _ hsent, hqueue, congrArg (· + 1) hcount⟩
      · rw [if_neg hstate, dispatchFrom_skip hpop hstate]
        exact ih (rank + 1) queue

end Priority

section States

variable {Q τ : Type} (pop : Q → Option (τ × Q)) (available assigned : ℤ)

theorem dispatchFrom_states (rank : ℕ) (states : List ℤ) (queue : Q) :
    let d := dispatchFrom pop available assigned rank states queue
    (∀ r ∈ d.sent.map Prod.fst, rank ≤ r) ∧
    ∀ i, d.states[i]? =
      if rank + i ∈ d.sent.map Prod.fst then some assigned else states[i]? := by
  induction states generalizing rank queue with
  | nil => exact ⟨fun r hr => absurd hr List.not_mem_nil, fun i => rfl⟩
  | cons state states ih =>
    cases hpop : pop queue with
    | none =>
      rw [dispatchFrom_empty hpop]
      exact ⟨fun r hr => absurd hr List.not_mem_nil, fun i => rfl⟩
    | some top =>
      obtain ⟨task, rest⟩ := top
      have hshift : ∀ i, rank + 1 + i = rank + (i + 1) := fun i => by omega
      obtain rfl | hstate := eq_or_ne state available
      · obtain ⟨hle, hstates⟩ := ih (rank + 1) rest
        rw [dispatchFrom_serve hpop]
        simp only [List.map_cons, List.mem_cons]
        constructor
        · rintro r (rfl | hr)
          · exact Nat.le_refl _
          · exact Nat.le_of_succ_le (hle r hr)
        · intro i
          cases i with
          | zero => rw [if_pos (Or.inl (Nat.add_zero rank)), List.getElem?_cons_zero]
          | succ i =>
            have hne : rank + (i + 1) ≠ rank := by omega
            have hrest := hstates i
            rw [hshift] at hrest
            simp only [List.getElem?_cons_succ, hrest, hne, false_or]
      · obtain ⟨hle, hstates⟩ := ih (rank + 1) queue
        rw [dispatchFrom_skip hpop hstate]
        constructor
        · intro r hr
          exact Nat.le_of_succ_le (hle r hr)
        · intro i
          cases i with
          | zero => exact (if_neg fun hmem => Nat.not_succ_le_self _ (hle _ hmem)).symm
          | succ i =>
            have hrest := hstates i
            rw [hshift] at hrest
            simp only [List.getElem?_cons_succ, hrest]

end States

section Dispatch

variable {Q τ P : Type} [LinearOrder P] (pq : PriorityQueue Q τ P) (available assigned : ℤ)
  (states : List ℤ) (queue : Q)

theorem dispatchToAvailable_sent :
    let ranks := availableRanks available states
    let d := dispatchToAvailable pq.pop available assigned states queue
    d.sent = ranks.zip (pq.take ranks.length queue).1 ∧
      d.queue = (pq.take ranks.length queue).2 ∧ d.dispatched = d.sent.length := by
  cases states with
  | nil => exact ⟨rfl, rfl, rfl⟩
  | cons center states =>
    rw [availableRanks_cons]
    exact dispatchFrom_sent pq available assigned 1 states queue

theorem dispatchToAvailable_states (r : ℕ) :
    let d := dispatchToAvailable pq.pop available assigned states queue
    d.states[r]? = if r ∈ d.sent.map Prod.fst then some assigned else states[r]? := by
  cases states with
  | nil => rfl
  | cons center states =>
    obtain ⟨hle, hstates⟩ := dispatchFrom_states pq.pop available assigned 1 states queue
    cases r with
    | zero => exact (if_neg fun hmem => Nat.not_succ_le_zero 0 (hle 0 hmem)).symm
    | succ r =>
      have hrest := hstates r
      rw [Nat.add_comm 1 r] at hrest
      exact hrest

/-- Either side runs out: the ranks or the tasks. -/
theorem dispatchToAvailable_length :
    let d := dispatchToAvailable pq.pop available assigned states queue
    d.sent.length = min (pq.contents queue).card (availableRanks available states).length := by
  obtain ⟨hsent, -, -⟩ := dispatchToAvailable_sent pq available assigned states queue
  simp only [hsent, List.length_zip, pq.take_length]
  omega

theorem dispatchToAvailable_ranks :
    let d := dispatchToAvailable pq.pop available assigned states queue
    d.sent.map Prod.fst = (availableRanks available states).take d.sent.length := by
  obtain ⟨hsent, -, -⟩ := dispatchToAvailable_sent pq available assigned states queue
  simp only [hsent]
  rw [List.zip_eq_zip_take_min, List.map_fst_zip (by simp), List.length_zip, List.length_take,
    List.length_take, Nat.min_eq_left (Nat.min_le_left _ _), Nat.min_eq_left (Nat.min_le_right _ _),
    Nat.min_self]

theorem dispatchToAvailable_tasks :
    let d := dispatchToAvailable pq.pop available assigned states queue
    d.sent.map Prod.snd = (pq.take (availableRanks available states).length queue).1 := by
  obtain ⟨hsent, -, -⟩ := dispatchToAvailable_sent pq available assigned states queue
  simp only [hsent]
  apply List.map_snd_zip
  rw [pq.take_length]
  exact Nat.min_le_left _ _

/-- A queue that is not empty afterwards has served every available rank. -/
theorem dispatchToAvailable_exhausts (hne : assigned ≠ available) :
    let d := dispatchToAvailable pq.pop available assigned states queue
    pq.contents d.queue = 0 ∨ availableRanks available d.states = [] := by
  have hlength := dispatchToAvailable_length pq available assigned states queue
  have hranks := dispatchToAvailable_ranks pq available assigned states queue
  have hstates := dispatchToAvailable_states pq available assigned states queue
  have htasks := dispatchToAvailable_tasks pq available assigned states queue
  obtain ⟨-, hqueue, -⟩ := dispatchToAvailable_sent pq available assigned states queue
  have hcontents := pq.take_contents (availableRanks available states).length queue
  rw [← htasks, ← hqueue] at hcontents
  generalize dispatchToAvailable pq.pop available assigned states queue = d at *
  dsimp only at hlength hranks hstates ⊢
  rcases Nat.le_total (pq.contents queue).card (availableRanks available states).length with
    hcard | hcard
  · left
    rw [Nat.min_eq_left hcard] at hlength
    have htotal := congrArg Multiset.card hcontents
    rw [Multiset.card_add, Multiset.coe_card, List.length_map, hlength] at htotal
    exact Multiset.card_eq_zero.mp (by omega)
  · right
    rw [Nat.min_eq_right hcard] at hlength
    rw [hlength, List.take_length] at hranks
    apply List.eq_nil_iff_forall_not_mem.mpr
    intro r hr
    rw [availableRanks, List.mem_filter, decide_eq_true_iff, hstates r, hranks] at hr
    obtain ⟨hrange, hr⟩ := hr
    split at hr
    · exact hne (Option.some.inj hr)
    · rename_i hfree
      apply hfree
      rw [availableRanks, List.mem_filter, decide_eq_true_iff]
      refine ⟨List.mem_range'_1.mpr ⟨(List.mem_range'_1.mp hrange).1, ?_⟩, hr⟩
      obtain ⟨hlt, -⟩ := List.getElem?_eq_some_iff.mp hr
      have hle := (List.mem_range'_1.mp hrange).1
      omega

end Dispatch

/-! ## The center's vector -/

def code : ProcessState → ℤ
  | .RUNNING_STATE => 1
  | .ASSIGNED_STATE => 2
  | .AVAILABLE_STATE => 3

theorem code_injective : Function.Injective code := by
  intro a b h
  cases a <;> cases b <;> first | rfl | exact absurd h (by decide)

section Ranks

variable {Q τ ρ : Type} [DecidableEq ρ] (pop : Q → Option (τ × Q)) (index : ρ → ℕ)

theorem dispatchFrom_map (ranks : List ρ) (rank : ℕ) (queue : Q) (states : ρ → ProcessState)
    (hindex : ranks.map index = List.range' rank ranks.length) :
    let d := Gempba.dispatchToAvailable pop ranks queue states
    dispatchFrom pop (code .AVAILABLE_STATE) (code .ASSIGNED_STATE) rank
        (ranks.map fun r => code (states r)) queue =
      ⟨d.sent.map fun x => (index x.1, x.2), ranks.map fun r => code (d.states r), d.queue,
        d.sent.length⟩ := by
  induction ranks generalizing rank queue states with
  | nil => rfl
  | cons r ranks ih =>
    have hnodup : (r :: ranks).Nodup := by
      apply List.Nodup.of_map index
      rw [hindex]
      exact List.nodup_range' ..
    obtain ⟨hr, -⟩ := List.nodup_cons.mp hnodup
    rw [List.length_cons, List.range'_succ, List.map_cons] at hindex
    obtain ⟨rfl, hindex⟩ := List.cons.inj hindex
    cases hpop : pop queue with
    | none =>
      rw [dispatchFrom_empty hpop]
      simp only [Gempba.dispatchToAvailable, hpop]
      rfl
    | some top =>
      obtain ⟨task, rest⟩ := top
      obtain hstate | hstate := eq_or_ne (states r) .AVAILABLE_STATE
      · -- the rank is served, and the others find their own states
        have hcodes : (ranks.map fun q => code (states q)) = ranks.map fun q =>
            code (Function.update states r .ASSIGNED_STATE q) := by
          apply List.map_congr_left
          intro q hq
          have hne : q ≠ r := by
            rintro rfl
            exact hr hq
          rw [Function.update_of_ne hne]
        have hfinal : (Gempba.dispatchToAvailable pop ranks rest
            (Function.update states r .ASSIGNED_STATE)).states r = .ASSIGNED_STATE := by
          obtain ⟨-, -, -, hstates⟩ := Gempba.dispatchToAvailable_states pop ranks rest
            (Function.update states r .ASSIGNED_STATE)
          simp only [hstates, Function.update_self, ite_self]
        rw [List.map_cons, hstate, dispatchFrom_serve hpop, hcodes, ih (index r + 1) rest _ hindex]
        simp only [Gempba.dispatchToAvailable, hpop, hstate, ne_eq, not_true_eq_false, if_false,
          List.map_cons, List.length_cons, hfinal]
      · have hcode : code (states r) ≠ code .AVAILABLE_STATE := fun h => hstate (code_injective h)
        have hfinal : (Gempba.dispatchToAvailable pop ranks queue states).states r = states r := by
          obtain ⟨hsub, -, -, hstates⟩ := Gempba.dispatchToAvailable_states pop ranks queue states
          rw [hstates]
          exact if_neg fun hmem => hr (hsub.subset hmem)
        rw [List.map_cons, dispatchFrom_skip hpop hcode, ih (index r + 1) queue _ hindex]
        simp only [Gempba.dispatchToAvailable, hpop, hstate, ne_eq, not_false_eq_true, if_true,
          List.map_cons, hfinal]

end Ranks

end StateVector

theorem World.workers_val (W : World) :
    W.workers.map (fun w => w.val.val) = List.range' 1 W.workers.length := by
  have hranks : W.workers.map (fun w => w.val.val) = List.range' 1 (W.size - 1) := by
    refine List.Pairwise.eq_of_mem_iff (List.pairwise_map.mpr ?_) List.pairwise_lt_range' ?_
    · exact W.pairwise_workers
    · intro r
      rw [List.mem_map, List.mem_range'_1]
      constructor
      · rintro ⟨w, -, rfl⟩
        have hne : w.val.val ≠ 0 := fun h => w.property (Fin.ext h)
        have hlt := w.val.isLt
        omega
      · rintro ⟨hle, hlt⟩
        have hne : (⟨r, by omega⟩ : Rank W) ≠ W.center := fun h => by
          have hzero := congrArg Fin.val h
          simp [World.center] at hzero
          omega
        exact ⟨⟨_, hne⟩, World.mem_workers _, rfl⟩
  have hlength := congrArg List.length hranks
  rw [List.length_map, List.length_range'] at hlength
  rw [hranks, hlength]

namespace Centralized

open StateVector

variable {W : World}

/-- `m_process_state`: the center has an entry of its own. -/
def processStates (center : ℤ) (s : State W) : List ℤ :=
  center :: W.workers.map fun w => code (s.processState w)

/-- A list is popped from its front, where its order says which task comes first. -/
def popped : PriorityQueue (List Ticketed) Ticketed Unit where
  contents q := q
  priority _ := ()
  pop := popFront
  pop_none q h := by
    cases q with
    | nil => rfl
    | cons x q => cases h
  pop_some q x rest h := popFront_contents q x rest h
  pop_max _ _ _ _ _ _ := le_rfl

/-- `clear_buffer` is the dispatch over the vector, and its count leaves `m_nodes_available`. -/
theorem clearBuffer_dispatch {order : List Ticketed} {s t : State W} (center : ℤ)
    (h : clearBuffer order s = .moved t) :
    let d := StateVector.dispatchToAvailable popFront (code .AVAILABLE_STATE)
      (code .ASSIGNED_STATE) (processStates center s) order
    t.queue = d.queue ∧ processStates center t = d.states ∧
      t.nodesAvailable = s.nodesAvailable - d.dispatched := by
  obtain ⟨-, -, rfl⟩ := clearBuffer_moved h
  have hdispatch := dispatchFrom_map popFront (fun w : WorkerRank W => w.val.val) W.workers 1 order
    s.processState W.workers_val
  rw [processStates, StateVector.dispatchToAvailable, hdispatch]
  exact ⟨rfl, rfl, rfl⟩

/-- No task waits while a rank is available. -/
theorem clearBuffer_exhausts {order : List Ticketed} {s t : State W}
    (h : clearBuffer order s = .moved t) :
    t.queue = 0 ∨ ∀ w, t.processState w ≠ .AVAILABLE_STATE := by
  obtain ⟨hqueue, hstates, -⟩ := clearBuffer_dispatch 0 h
  have hcodes : code .ASSIGNED_STATE ≠ code .AVAILABLE_STATE := by decide
  rcases dispatchToAvailable_exhausts popped _ _ (processStates 0 s) order hcodes with
    hempty | hnone
  · left
    rw [hqueue]
    exact hempty
  · right
    intro w hw
    have hmem : code .AVAILABLE_STATE ∈ W.workers.map fun w => code (t.processState w) := by
      rw [← hw]
      exact List.mem_map_of_mem (World.mem_workers w)
    obtain ⟨i, hi⟩ := List.mem_iff_getElem?.mp hmem
    have hrank : i + 1 ∈ availableRanks (code .AVAILABLE_STATE) (processStates 0 t) := by
      rw [processStates, availableRanks_cons, mem_availableFrom]
      exact ⟨Nat.le_add_left 1 i, hi⟩
    rw [hstates] at hrank
    exact absurd hrank (List.eq_nil_iff_forall_not_mem.mp hnone _)

end Centralized

/-- The dispatch hands the popped tasks to the lowest available ranks and to no other one, and
`clear_buffer` leaves no task waiting beside an available rank. -/
theorem centralized_dispatch :
    (∀ {Q τ P : Type} [LinearOrder P] (pq : PriorityQueue Q τ P) (available assigned : ℤ)
      (states : List ℤ) (queue : Q),
      let ranks := StateVector.availableRanks available states
      let d := StateVector.dispatchToAvailable pq.pop available assigned states queue
      d.sent.length = min (pq.contents queue).card ranks.length ∧
      d.sent.map Prod.fst = ranks.take d.sent.length ∧
      (d.sent.map Prod.fst).Pairwise (· < ·) ∧
      (d.sent.map Prod.snd).Pairwise (fun x y => pq.priority y ≤ pq.priority x) ∧
      (d.sent.map Prod.snd : Multiset τ) + pq.contents d.queue = pq.contents queue ∧
      (∀ x ∈ d.sent.map Prod.snd, ∀ y ∈ pq.contents d.queue, pq.priority y ≤ pq.priority x) ∧
      (∀ r, d.states[r]? =
        if r ∈ d.sent.map Prod.fst then some assigned else states[r]?) ∧
      0 ∉ d.sent.map Prod.fst ∧
      d.dispatched = d.sent.length) ∧
    ∀ (W : World) (order : List Centralized.Ticketed) (s t : Centralized.State W),
      Centralized.clearBuffer order s = .moved t →
        t.queue = 0 ∨ ∀ w, t.processState w ≠ .AVAILABLE_STATE := by
  refine ⟨fun pq available assigned states queue => ?_,
    fun W order s t h => Centralized.clearBuffer_exhausts h⟩
  intro ranks d
  obtain ⟨-, hqueue, hcount⟩ :=
    StateVector.dispatchToAvailable_sent pq available assigned states queue
  have hranks := StateVector.dispatchToAvailable_ranks pq available assigned states queue
  have htasks := StateVector.dispatchToAvailable_tasks pq available assigned states queue
  refine ⟨StateVector.dispatchToAvailable_length pq available assigned states queue, hranks, ?_, ?_,
    ?_, ?_, StateVector.dispatchToAvailable_states pq available assigned states queue, ?_, hcount⟩
  · rw [hranks]
    exact StateVector.pairwise_availableRanks.sublist (List.take_sublist _ _)
  · rw [htasks]
    exact pq.take_pairwise _ _
  · rw [htasks, hqueue]
    exact pq.take_contents _ _
  · rw [htasks, hqueue]
    exact pq.take_max _ _
  · rw [hranks]
    intro hmem
    have hrange := (List.mem_filter.mp (List.mem_of_mem_take hmem)).1
    exact Nat.not_succ_le_zero 0 (List.mem_range'_1.mp hrange).1

theorem centralized_dispatch_two :
    let queue : { l : List ℕ // l.Pairwise fun x y => y ≤ x } := ⟨[5, 4], by decide⟩
    let d := StateVector.dispatchToAvailable (PriorityQueue.sorted (id : ℕ → ℕ)).pop 3 2
      [3, 1, 3, 3, 3] queue
    let x : Centralized.Ticketed := ⟨0, ⟨[5], 1⟩⟩
    let s : Centralized.State .pair :=
      { Centralized.sendSeed ⟨[7], 3⟩ with queue := [x], processState := fun _ => .AVAILABLE_STATE }
    d.sent.map Prod.fst = [2, 3] ∧ ∃ t, Centralized.clearBuffer [x] s = .moved t ∧
      (t.queue = 0 ∨ ∀ w, t.processState w ≠ .AVAILABLE_STATE) := by
  intro queue d x s
  obtain ⟨-, hranks, -⟩ :=
    centralized_dispatch.1 (PriorityQueue.sorted (id : ℕ → ℕ)) 3 2 [3, 1, 3, 3, 3] queue
  have hmoved : ∃ t, Centralized.clearBuffer [x] s = .moved t := ⟨_, if_pos ⟨rfl, rfl⟩⟩
  obtain ⟨t, ht⟩ := hmoved
  exact ⟨hranks, t, ht, centralized_dispatch.2 .pair [x] s t ht⟩

end Gempba
