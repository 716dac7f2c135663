import Gempba.Library.Machine
import Gempba.Schedulers.CentralizedUtils
import Gempba.Utils.Topology

/-!
# The coordinator of the semi-centralized scheduler

The center keeps the state of every rank and the tree of assignments, and
answers `RUNNING_STATE` and `AVAILABLE_STATE` by assigning an available rank
to a running one that has no next. A handler returns the `NEXT_PROCESS`
messages it sends. The abstract coordinator below is a pair of an ordered
family and a map of states.
-/

namespace Gempba

set_option autoImplicit false

variable {W : World}

structure Coordinator (W : World) where
  processTree : Tree W.size
  processState : Rank W → ProcessState
  nodesAvailable : ℤ
  nodesRunning : ℤ
  nextProcessesSent : Rank W → ℕ

abbrev Assignment (W : World) := Rank W × List (Rank W)

namespace Coordinator

/-- Either a throw of the tree, or the new coordinator and what it sent. -/
abbrev Handled (W : World) := Except TreeError (Coordinator W × List (Assignment W))

def init (W : World) : Coordinator W where
  processTree := .make W.size
  processState _ := .AVAILABLE_STATE
  nodesAvailable := 0
  nodesRunning := 0
  nextProcessesSent _ := 0

def sendNextProcess (p : Rank W) (c : Coordinator W) : Coordinator W :=
  { c with nextProcessesSent := Function.update c.nextProcessesSent p (c.nextProcessesSent p + 1) }

/-- One rank of `broadcast_nodes_topology`. -/
def broadcastTo (c : Coordinator W) (p : Rank W) : Handled W :=
  match c.processTree.childrenOf p with
  | none => .error .endless
  | some children =>
    let c := { c with
      processState := fun r => if r ∈ children then .ASSIGNED_STATE else c.processState r
      nodesAvailable := c.nodesAvailable - children.length }
    if children.isEmpty then .ok (c, []) else .ok (c.sendNextProcess p, [(p, children)])

def broadcastToAll : List (WorkerRank W) → Coordinator W → Handled W
  | [], c => .ok (c, [])
  | p :: ps, c => do
    let (c, sent) ← c.broadcastTo p
    let (c, rest) ← broadcastToAll ps c
    pure (c, sent ++ rest)

def broadcastNodesTopology (c : Coordinator W) : Handled W := broadcastToAll W.workers c

def sendSeed (c : Coordinator W) : Coordinator W :=
  { c with
    nodesAvailable := c.nodesAvailable - 1
    processState := Function.update c.processState W.first .RUNNING_STATE }

def start (W : World) : Handled W := do
  let tree ← buildTopology 2 W.size 0 W.first (.make W.size)
  let (c, sent) ← broadcastNodesTopology { init W with processTree := tree }
  pure (c.sendSeed, sent)

/-- The least available rank; `none` stands for `-1`. -/
def getAvailable (c : Coordinator W) : Option (WorkerRank W) :=
  W.workers.find? fun r => c.processState r = .AVAILABLE_STATE

def assign (p r : Rank W) (c : Coordinator W) : Handled W := do
  let c := c.sendNextProcess p
  let tree ← c.processTree.addNext p r
  pure ({ c with
    processTree := tree
    processState := Function.update c.processState r .ASSIGNED_STATE
    nodesAvailable := c.nodesAvailable - 1 }, [(p, [r])])

def releaseIfAssigned (r : Rank W) (c : Coordinator W) : Except TreeError (Coordinator W) :=
  if c.processTree.isAssigned r then do
    let tree ← c.processTree.release r
    pure { c with processTree := tree }
  else .ok c

def processRunning (w : WorkerRank W) (c : Coordinator W) : Handled W := do
  let c := { c with
    processState := Function.update c.processState w .RUNNING_STATE
    nodesRunning := c.nodesRunning + 1 }
  let c ← c.releaseIfAssigned w
  if c.processTree.hasNext w then .ok (c, [])
  else
    match c.getAvailable with
    | some next => c.assign w next
    | none => .ok (c, [])

/-- The ranks in the order of the search that starts at a random offset. -/
def searchOrder (W : World) (offset : ℕ) : List (WorkerRank W) :=
  (List.range W.size).filterMap fun i =>
    let r : Rank W := ⟨(i + offset) % W.size, Nat.mod_lt _ W.size_pos⟩
    if h : r ≠ W.center then some ⟨r, h⟩ else none

def processAvailable (w : WorkerRank W) (offset : ℕ) (c : Coordinator W) : Handled W := do
  let c := { c with
    processState := Function.update c.processState w .AVAILABLE_STATE
    nodesAvailable := c.nodesAvailable + 1
    nodesRunning := c.nodesRunning - 1 }
  let c ← c.releaseIfAssigned w
  match (searchOrder W offset).find? fun r =>
      c.processState r = .RUNNING_STATE ∧ ¬ c.processTree.hasNext r with
  | some r => c.assign r w
  | none => .ok (c, [])

/-- The random offset lies between 0 and the size of the world, both included. -/
inductive Event (W : World) where
  | running (w : WorkerRank W)
  | available (w : WorkerRank W) (offset : Fin (W.size + 1))

def handle : Event W → Coordinator W → Handled W
  | .running w => processRunning w
  | .available w offset => processAvailable w offset

/-- Notifications of any ranks in any order, stale or repeated ones included. -/
def machine (W : World) : Transition.Machine (Coordinator W) (Event W) TreeError where
  initial c := ∃ sent, start W = .ok (c, sent)
  step e c :=
    match handle e c with
    | .ok (c, _) => .moved c
    | .error e => .raised e

/-! ## The abstract coordinator -/

/-- The assignments, and the state of every rank. -/
structure View (W : World) where
  family : Forest.Ordered (Rank W)
  state : Rank W → ProcessState

namespace View

def report (v : View W) (w : Rank W) (x : ProcessState) : View W :=
  ⟨v.family.detach w, Function.update v.state w x⟩

inductive Assigns (v : View W) : View W → List (Assignment W) → Prop where
  | nobody : Assigns v v []
  | pair (p r : WorkerRank W) (hp : v.state p = .RUNNING_STATE)
      (hr : v.state r = .AVAILABLE_STATE) (hnext : v.family.children p = [])
      (horphan : v.family.parent r = none) :
      Assigns v ⟨v.family.attach p r horphan, Function.update v.state r .ASSIGNED_STATE⟩
        [(p, [r.val])]

inductive Hires (v : View W) (w : WorkerRank W) : View W → List (Assignment W) → Prop where
  | hasNext (hnext : v.family.children w ≠ []) : Hires v w v []
  | nobody (hnext : v.family.children w = [])
      (hnone : ∀ r : WorkerRank W, v.state r ≠ .AVAILABLE_STATE) : Hires v w v []
  | pair (r : WorkerRank W) (hnext : v.family.children w = [])
      (hr : v.state r = .AVAILABLE_STATE) (horphan : v.family.parent r = none) :
      Hires v w ⟨v.family.attach w r horphan, Function.update v.state r .ASSIGNED_STATE⟩
        [(w, [r.val])]

inductive Joins (v : View W) (w : WorkerRank W) : View W → List (Assignment W) → Prop where
  | nobody (hnone : ∀ p : WorkerRank W, v.state p = .RUNNING_STATE → v.family.children p ≠ []) :
      Joins v w v []
  | pair (p : WorkerRank W) (hp : v.state p = .RUNNING_STATE) (hnext : v.family.children p = [])
      (horphan : v.family.parent w = none) :
      Joins v w ⟨v.family.attach p w horphan, Function.update v.state w .ASSIGNED_STATE⟩
        [(p, [w.val])]

theorem Hires.assigns {v v' : View W} {w : WorkerRank W} {sent : List (Assignment W)}
    (h : v.Hires w v' sent) (hw : v.state w = .RUNNING_STATE) : v.Assigns v' sent := by
  cases h with
  | hasNext _ => exact .nobody
  | nobody _ _ => exact .nobody
  | pair r hnext hr horphan => exact .pair w r hw hr hnext horphan

theorem Joins.assigns {v v' : View W} {w : WorkerRank W} {sent : List (Assignment W)}
    (h : v.Joins w v' sent) (hw : v.state w = .AVAILABLE_STATE) : v.Assigns v' sent := by
  cases h with
  | nobody _ => exact .nobody
  | pair p hp hnext horphan => exact .pair p w hp hw hnext horphan

structure Consistent (v : View W) : Prop where
  assigned : ∀ r, v.state r = .ASSIGNED_STATE ↔ v.family.parent r ≠ none
  acyclic : Forest.Acyclic v.family.parent

namespace Consistent

variable {v v' : View W}

theorem report (h : v.Consistent) (w : Rank W) {x : ProcessState} (hx : x ≠ .ASSIGNED_STATE) :
    (v.report w x).Consistent where
  assigned r := by
    by_cases hr : r = w
    · subst hr
      simp [View.report, Forest.Ordered.detach, hx]
    · simpa [View.report, Forest.Ordered.detach, Function.update_of_ne hr] using h.assigned r
  acyclic := h.acyclic.detach w

/-- Only a running rank gets a successor; it is not assigned itself, so no cycle closes. -/
theorem assigns (h : v.Consistent) {sent : List (Assignment W)} (ha : v.Assigns v' sent) :
    v'.Consistent := by
  cases ha with
  | nobody => exact h
  | pair p r hp hr hnext horphan =>
    have hproot : v.family.parent p = none := by
      by_contra hne
      have hassigned := (h.assigned p).mpr hne
      rw [hp] at hassigned
      cases hassigned
    have hne : p.val ≠ r.val := by
      intro he
      rw [he, hr] at hp
      cases hp
    refine ⟨fun x => ?_, h.acyclic.attach hproot horphan hne⟩
    by_cases hx : x = r
    · subst hx
      simp [Forest.Ordered.attach]
    · simpa [Forest.Ordered.attach, Function.update_of_ne hx] using h.assigned x

end Consistent

end View

/-- The coordinator is a view whose family is stored in the links of the tree. -/
structure Refines (c : Coordinator W) (v : View W) : Prop where
  tree : c.processTree.Represents v.family
  state : c.processState = v.state

namespace Refines

variable {c : Coordinator W} {v : View W}

theorem isAssigned_iff (h : c.Refines v) (r : Rank W) :
    c.processTree.isAssigned r = true ↔ v.family.parent r ≠ none :=
  h.tree.isAssigned_iff r

theorem setState (h : c.Refines v) (w : Rank W) (x : ProcessState) (nodesAvailable : ℤ)
    (nodesRunning : ℤ) :
    Refines { c with processState := Function.update c.processState w x, nodesAvailable,
                     nodesRunning } ⟨v.family, Function.update v.state w x⟩ :=
  ⟨h.tree, by rw [h.state]⟩

theorem releaseIfAssigned (h : c.Refines v) (r : Rank W) :
    ∃ c', c.releaseIfAssigned r = .ok c' ∧ c'.Refines ⟨v.family.detach r, v.state⟩ := by
  unfold Coordinator.releaseIfAssigned
  by_cases hassigned : c.processTree.isAssigned r = true
  · obtain ⟨p, hp⟩ := Option.ne_none_iff_exists'.mp ((h.isAssigned_iff r).mp hassigned)
    obtain ⟨tree, hrelease, htree⟩ := h.tree.release_eq hp
    refine ⟨{ c with processTree := tree }, ?_, htree, h.state⟩
    rw [if_pos hassigned, hrelease]
    rfl
  · have horphan : v.family.parent r = none := by
      by_contra hne
      exact hassigned ((h.isAssigned_iff r).mpr hne)
    refine ⟨c, by rw [if_neg hassigned], ?_⟩
    rw [v.family.detach_of_orphan horphan]
    exact h

theorem assign (h : c.Refines v) (p : Rank W) {r : Rank W}
    (horphan : v.family.parent r = none) :
    ∃ c', c.assign p r = .ok (c', [(p, [r])]) ∧
      c'.Refines ⟨v.family.attach p r horphan, Function.update v.state r .ASSIGNED_STATE⟩ := by
  obtain ⟨tree, hadd, htree⟩ := h.tree.addNext_eq p horphan
  refine ⟨{ c.sendNextProcess p with
    processTree := tree
    processState := Function.update c.processState r .ASSIGNED_STATE
    nodesAvailable := c.nodesAvailable - 1 }, ?_, htree, by rw [h.state]⟩
  simp only [Coordinator.assign, sendNextProcess]
  rw [hadd]
  rfl

theorem processRunning (h : c.Refines v) (hv : v.Consistent) (w : WorkerRank W) :
    ∃ c' v' sent, processRunning w c = .ok (c', sent) ∧ c'.Refines v' ∧
      (v.report w .RUNNING_STATE).Hires w v' sent := by
  have hset := h.setState w .RUNNING_STATE c.nodesAvailable (c.nodesRunning + 1)
  obtain ⟨c₁, hrelease, hc₁⟩ := hset.releaseIfAssigned w
  have hcons := hv.report w (x := .RUNNING_STATE) (by simp)
  have hrun : Coordinator.processRunning w c =
      if c₁.processTree.hasNext w then .ok (c₁, [])
      else match c₁.getAvailable with
        | some next => c₁.assign w next
        | none => .ok (c₁, []) := by
    simp only [Coordinator.processRunning]
    rw [hrelease]
    rfl
  rw [hrun]
  by_cases hnext : c₁.processTree.hasNext w = true
  · exact ⟨c₁, _, [], by rw [if_pos hnext], hc₁, .hasNext ((hc₁.tree.hasNext_iff w).mp hnext)⟩
  · rw [if_neg hnext]
    have hchildren : (v.family.detach w).children w = [] := by
      by_contra hne
      exact hnext ((hc₁.tree.hasNext_iff w).mpr hne)
    cases hfind : c₁.getAvailable with
    | none =>
      refine ⟨c₁, _, [], rfl, hc₁, .nobody hchildren fun r hr => ?_⟩
      have hnone := List.find?_eq_none.mp hfind r (World.mem_workers r)
      rw [hc₁.state] at hnone
      exact hnone (decide_eq_true hr)
    | some r =>
      have hr : c₁.processState r = .AVAILABLE_STATE := by
        simpa using List.find?_some hfind
      rw [hc₁.state] at hr
      have horphan : (v.family.detach w).parent r = none := by
        by_contra hne
        have hassigned := (hcons.assigned r).mpr hne
        rw [show (v.report w .RUNNING_STATE).state r = .AVAILABLE_STATE from hr] at hassigned
        cases hassigned
      obtain ⟨c', hassign, hc'⟩ := hc₁.assign w horphan
      exact ⟨c', _, _, hassign, hc',
        View.Hires.pair (v := v.report w .RUNNING_STATE) r hchildren hr horphan⟩

theorem mem_searchOrder (offset : ℕ) (r : WorkerRank W) : r ∈ searchOrder W offset := by
  have hlt := r.val.isLt
  have hmod := Nat.mod_lt offset W.size_pos
  refine List.mem_filterMap.mpr ⟨(r.val.val + (W.size - offset % W.size)) % W.size,
    List.mem_range.mpr (Nat.mod_lt _ W.size_pos), ?_⟩
  have hrank :
      ((r.val.val + (W.size - offset % W.size)) % W.size + offset) % W.size = r.val.val := by
    rw [Nat.mod_add_mod, Nat.add_assoc]
    have hsum : W.size - offset % W.size + offset = W.size * (offset / W.size + 1) := by
      have hdiv := Nat.div_add_mod offset W.size
      rw [Nat.mul_add, Nat.mul_one]
      omega
    rw [hsum, Nat.add_mul_mod_self_left, Nat.mod_eq_of_lt hlt]
  simp only [hrank]
  rw [dif_pos r.property]

theorem processAvailable (h : c.Refines v) (hv : v.Consistent) (w : WorkerRank W) (offset : ℕ) :
    ∃ c' v' sent, processAvailable w offset c = .ok (c', sent) ∧ c'.Refines v' ∧
      (v.report w .AVAILABLE_STATE).Joins w v' sent := by
  have hset := h.setState w .AVAILABLE_STATE (c.nodesAvailable + 1) (c.nodesRunning - 1)
  obtain ⟨c₁, hrelease, hc₁⟩ := hset.releaseIfAssigned w
  have hcons := hv.report w (x := .AVAILABLE_STATE) (by simp)
  have hrun : Coordinator.processAvailable w offset c =
      match (searchOrder W offset).find? fun r : WorkerRank W =>
          c₁.processState r = .RUNNING_STATE ∧ ¬ c₁.processTree.hasNext r with
      | some r => c₁.assign r w
      | none => .ok (c₁, []) := by
    simp only [Coordinator.processAvailable]
    rw [hrelease]
    rfl
  rw [hrun]
  cases hfind : (searchOrder W offset).find? fun r : WorkerRank W =>
      c₁.processState r = .RUNNING_STATE ∧ ¬ c₁.processTree.hasNext r with
  | none =>
    refine ⟨c₁, _, [], rfl, hc₁, .nobody fun p hp hnext => ?_⟩
    have hnone := List.find?_eq_none.mp hfind p (mem_searchOrder offset p)
    rw [hc₁.state, decide_eq_true_eq] at hnone
    refine hnone ⟨hp, fun hnext' => ?_⟩
    exact (hc₁.tree.hasNext_iff p).mp hnext' hnext
  | some p =>
    have hfound := List.find?_some hfind
    obtain ⟨hp, hnext⟩ : c₁.processState p = .RUNNING_STATE ∧
        ¬ c₁.processTree.hasNext p = true := by simpa using hfound
    rw [hc₁.state] at hp
    have horphan : (v.family.detach w).parent w = none := by simp [Forest.Ordered.detach]
    have hchildren : (v.family.detach w).children p = [] := by
      by_contra hne
      exact hnext ((hc₁.tree.hasNext_iff p).mpr hne)
    obtain ⟨c', hassign, hc'⟩ := hc₁.assign p horphan
    exact ⟨c', _, _, hassign, hc',
      View.Joins.pair (v := v.report w .AVAILABLE_STATE) p hp hchildren horphan⟩

def initialMessages (F : Forest.Ordered (Rank W)) (ps : List (WorkerRank W)) :
    List (Assignment W) :=
  ps.filterMap fun p : WorkerRank W =>
    if F.children p = [] then none else some (p.val, F.children p)

theorem broadcastTo {F : Forest.Ordered (Rank W)} (h : c.processTree.Represents F)
    (p : WorkerRank W) :
    ∃ c', c.broadcastTo p = .ok (c', initialMessages F [p]) ∧ c'.processTree = c.processTree ∧
      c'.processState =
        fun r => if r ∈ F.children p then .ASSIGNED_STATE else c.processState r := by
  let c₁ : Coordinator W := { c with
    processState := fun r => if r ∈ F.children p then .ASSIGNED_STATE else c.processState r
    nodesAvailable := c.nodesAvailable - (F.children p).length }
  unfold Coordinator.broadcastTo
  rw [h.childrenOf_eq p]
  by_cases hempty : F.children p = []
  · exact ⟨c₁, by simp [hempty, initialMessages, c₁], rfl, rfl⟩
  · exact ⟨c₁.sendNextProcess p, by simp [hempty, initialMessages, c₁], rfl, rfl⟩

theorem broadcastToAll {F : Forest.Ordered (Rank W)} (h : c.processTree.Represents F)
    (ps : List (WorkerRank W)) :
    ∃ c', broadcastToAll ps c = .ok (c', initialMessages F ps) ∧
      c'.processTree = c.processTree ∧
      ∀ r, c'.processState r =
        if ∃ p ∈ ps, r ∈ F.children p.val then .ASSIGNED_STATE else c.processState r := by
  induction ps generalizing c with
  | nil => exact ⟨c, rfl, rfl, fun r => by simp⟩
  | cons p ps ih =>
    obtain ⟨c₁, hfirst, htree, hstate⟩ := broadcastTo h p
    obtain ⟨c', hrest, htree', hstate'⟩ := ih (htree ▸ h)
    refine ⟨c', ?_, htree'.trans htree, fun r => ?_⟩
    · simp only [Coordinator.broadcastToAll]
      rw [hfirst]
      simp only [bind, Except.bind, hrest, initialMessages, List.filterMap_cons,
        List.filterMap_nil]
      split <;> simp [pure, Except.pure]
    · rw [hstate', hstate]
      by_cases hp : r ∈ F.children p.val
      · simp [hp]
      · simp [hp]

end Refines

/-- The coordinator starts with a consistent view: rank 1 runs, all later ranks are assigned. -/
theorem start_eq (W : World) :
    ∃ c v, start W = .ok (c, Refines.initialMessages v.family W.workers) ∧ c.Refines v ∧
      v.Consistent ∧ v.state W.first = .RUNNING_STATE ∧ v.family.parent W.center = none ∧
      ∀ w : WorkerRank W, w ≠ W.firstWorker → v.state w = .ASSIGNED_STATE := by
  have hone : 1 < W.size := by have := W.two_le; omega
  obtain ⟨t, F, hbuild, ht, hparent⟩ := buildTopology_spec le_rfl hone
  obtain ⟨c, hbroadcast, htree, hstate⟩ :=
    Refines.broadcastToAll (c := { init W with processTree := t }) ht W.workers
  have hroot : ∀ q : Rank W, q.val < 2 → F.parent q = none := fun q hq => by
    have hq' := hparent q
    rw [if_neg (by omega)] at hq'
    simpa using hq'
  -- Every rank from 2 on is the child of a worker.
  have hchild : ∀ q : Rank W, (∃ p ∈ W.workers, q ∈ F.children p.val) ↔ 2 ≤ q.val := by
    intro q
    constructor
    · rintro ⟨p, _, hq⟩
      by_contra hlt
      rw [F.mem_children, hroot q (by omega)] at hq
      cases hq
    · intro hq
      have hq' := hparent q
      rw [if_pos hq] at hq'
      obtain ⟨p, hp, hrank⟩ := Option.map_eq_some_iff.mp hq'
      have hpc : p ≠ W.center := by
        rintro rfl
        simp only [World.center, parentRank] at hrank
        omega
      exact ⟨⟨p, hpc⟩, World.mem_workers _, (F.mem_children p q).mpr hp⟩
  have hfirst : (2 ≤ (W.first : Rank W).val) = False := by simp [World.first]
  refine ⟨c.sendSeed, ⟨F, c.sendSeed.processState⟩, ?_, ⟨htree ▸ ht, rfl⟩, ⟨fun r => ?_, ?_⟩, ?_,
    hroot _ (by simp [World.center]), fun w hw => ?_⟩
  · simp only [start]
    rw [show buildTopology 2 W.size 0 W.first (.make W.size) = .ok t from hbuild]
    simp only [bind, Except.bind, broadcastNodesTopology, hbroadcast]
    rfl
  · by_cases hr : r = W.first
    · subst hr
      simp [sendSeed, hroot W.first (by simp [World.first])]
    · simp only [sendSeed, Function.update_of_ne hr, hstate, hchild, init]
      have hr' := hparent r
      by_cases hle : 2 ≤ r.val
      · rw [if_pos hle] at hr'
        obtain ⟨p, hp, _⟩ := Option.map_eq_some_iff.mp hr'
        simp [hle, hp]
      · simp [hle, hroot r (by omega)]
  · refine Forest.acyclic_of_lt Fin.val fun q p hqp => ?_
    have hq' := hparent q
    rw [hqp] at hq'
    split at hq'
    · rename_i hle
      have hlt := parentRank_lt (b := 2) le_rfl hle
      simp only [Option.map_some, Option.some.injEq] at hq'
      omega
    · cases hq'
  · simp [sendSeed]
  · have hne : w.val ≠ W.first := fun he => hw (Subtype.ext he)
    have hle : 2 ≤ w.val.val := by
      have hpos : w.val.val ≠ 0 := fun h0 => w.property (Fin.ext h0)
      have hone : w.val.val ≠ 1 := fun h1 => hne (Fin.ext h1)
      omega
    simp [sendSeed, Function.update_of_ne hne, hstate, hchild, hle]

theorem handle_eq {c : Coordinator W} {v : View W} (h : c.Refines v) (hv : v.Consistent)
    (e : Event W) : ∃ c' v' sent, handle e c = .ok (c', sent) ∧ c'.Refines v' ∧ v'.Consistent := by
  cases e with
  | running w =>
    obtain ⟨c', v', sent, hrun, hc', hhires⟩ := h.processRunning hv w
    exact ⟨c', v', sent, hrun, hc',
      (hv.report w (by simp)).assigns (hhires.assigns (Function.update_self ..))⟩
  | available w offset =>
    obtain ⟨c', v', sent, hrun, hc', hjoins⟩ := h.processAvailable hv w offset
    exact ⟨c', v', sent, hrun, hc',
      (hv.report w (by simp)).assigns (hjoins.assigns (Function.update_self ..))⟩

theorem consistent_of_reachable {c : Coordinator W} (h : (machine W).Reachable c) :
    ∃ v, c.Refines v ∧ v.Consistent := by
  refine h.invariant (I := fun c => ∃ v, c.Refines v ∧ v.Consistent) ?_ ?_
  · rintro c ⟨sent, hstart⟩
    obtain ⟨c₀, v, hok, hc, hv, _⟩ := start_eq W
    rw [hstart] at hok
    cases hok
    exact ⟨v, hc, hv⟩
  · rintro c e c' _ ⟨v, hc, hv⟩ _ hstep
    obtain ⟨c₁, v₁, sent, hok, hc₁, hv₁⟩ := handle_eq hc hv e
    simp only [machine, hok, Transition.Outcome.moved.injEq] at hstep
    exact ⟨v₁, hstep ▸ hc₁, hv₁⟩

/-- The coordinator starts without a throw; whatever is then reported, states and tree agree,
assignments form a forest, and no handler throws. -/
theorem bookkeeping (W : World) :
    (∃ c sent, start W = .ok (c, sent)) ∧
      ∀ c, (machine W).Reachable c →
        (∀ r, c.processState r = .ASSIGNED_STATE ↔ (c.processTree r).parent ≠ none) ∧
        Forest.Acyclic (fun r => (c.processTree r).parent) ∧
        (∀ r, (c.processTree r).parent ≠ some r) ∧
        ∀ e err, handle e c ≠ .error err := by
  refine ⟨?_, fun c h => ?_⟩
  · obtain ⟨c, v, hstart, _⟩ := start_eq W
    exact ⟨c, _, hstart⟩
  · obtain ⟨v, hc, hv⟩ := consistent_of_reachable h
    have hparent : (fun r => (c.processTree r).parent) = v.family.parent :=
      funext fun r => hc.tree.parent r
    refine ⟨fun r => ?_, hparent ▸ hv.acyclic, fun r hr => ?_, fun e err herr => ?_⟩
    · rw [hc.state, hc.tree.parent]
      exact hv.assigned r
    · exact hv.acyclic r (.single ((hc.tree.parent r).symm.trans hr))
    · obtain ⟨c', v', sent, hok, _⟩ := handle_eq hc hv e
      rw [hok] at herr
      cases herr

/-- Ranks 2 and 3 leave rank 1, and rank 2 becomes the next of rank 3. -/
def fourReports (offset : Fin (World.four.size + 1)) : List (Event .four) :=
  [.running World.four.firstWorker, .running secondOfFour, .available secondOfFour offset,
    .running thirdOfFour]

theorem bookkeeping_four : ∃ c₀ sent c, start .four = .ok (c₀, sent) ∧
    (machine .four).run (fourReports 0) c₀ = some c ∧
    (c.processTree secondOfFour.val).parent = some thirdOfFour.val ∧
    c.processState secondOfFour = .ASSIGNED_STATE ∧ c.processState thirdOfFour ≠ .ASSIGNED_STATE ∧
    Forest.Acyclic (fun r => (c.processTree r).parent) ∧ ∀ e err, handle e c ≠ .error err := by
  have hrun : ∃ c₀ sent c, start .four = .ok (c₀, sent) ∧
      (machine .four).run (fourReports 0) c₀ = some c ∧
      (c.processTree secondOfFour.val).parent = some thirdOfFour.val ∧
      (c.processTree thirdOfFour.val).parent = none := ⟨_, _, _, rfl, rfl, rfl, rfl⟩
  obtain ⟨c₀, sent, c, hstart, hc, hsecond, hthird⟩ := hrun
  have hinitial : (machine .four).Reachable c₀ := .start ⟨sent, hstart⟩
  obtain ⟨hassigned, hacyclic, _, hhandled⟩ := (bookkeeping .four).2 c (hinitial.run hc)
  refine ⟨c₀, sent, c, hstart, hc, hsecond, ?_, ?_, hacyclic, hhandled⟩
  · rw [hassigned, hsecond]
    exact Option.some_ne_none _
  · rw [Ne, hassigned, hthird]
    exact not_not.mpr rfl

end Coordinator

end Gempba
