import Mathlib.Data.Fintype.Basic
import Gempba.LoadBalancing.Sequential

/-!
# One move of a work stealing process

What waits in a process is a bag of obligations, and every move of one of its
threads meets one of them. No move throws.
-/

namespace Gempba

set_option autoImplicit false

open Transition

/-- The children of a call can be submitted the way they are. -/
def Call.Sends (c : Call) : Prop := ∀ d ∈ c.children, d.sendable = true

theorem Call.sends_of_sendable {c : Call} (h : c.sendable = true) : c.Sends :=
  fun _ hd => Call.all_child h hd

namespace ActiveCall

def obligations (a : ActiveCall) : Multiset Obligation :=
  .active a.parent.isNone ::ₘ ((a.uncreated.map .uncreated : List Obligation) +
    (a.created.map fun e => .created e.2 : List Obligation) : Multiset Obligation)

/-- The nodes that only this call may still hand over or leave. -/
def owned (a : ActiveCall) : Multiset NodeId :=
  (a.node.toList : Multiset NodeId) + (a.created.map Prod.fst : List NodeId)

structure Sound (b : Balancer) (a : ActiveCall) : Prop where
  parent : ∀ p, a.parent = some p → p ≤ b.uniqueIdCounter
  created : ∀ e ∈ a.created, b.Fresh e.1 e.2 ∧ e.2.sendable = true
  uncreated : ∀ c ∈ a.uncreated, c.sendable = true

end ActiveCall

namespace Stealer

open Balancer

variable {k : ℕ} {P : Type} {codec : Codec P}

section Totals

variable {A : Type} [AddCommMonoid A] (active : ActiveCall → A) (pooled : NodeId → A)
  (received : Call → A) (pushed : ℤ × P → A)

/-- A total over all that waits in a process. -/
def total (s : Stealer k P) : A :=
  ∑ t, ((s.stack t).map active).sum + (s.balancer.threadPool.map pooled).sum +
    (s.received.map received).sum + (s.pushed.map pushed).sum

end Totals

/-- The obligation of a node that waits in the pool. -/
def pooledObligation (b : Balancer) (n : NodeId) : Multiset Obligation :=
  match (b.node n).arguments with
  | none => 0
  | some c => {.pooled c}

def obligations (codec : Codec P) (s : Stealer k P) : Multiset Obligation :=
  s.total ActiveCall.obligations (pooledObligation s.balancer) (fun c => {.pooled c})
    fun e => {.pushed (codec.deserialize e.1 e.2)}

def owned (s : Stealer k P) : Multiset NodeId :=
  s.total ActiveCall.owned (fun n => {n}) (fun _ => 0) fun _ => 0

/-- The nodes that calls have created or that wait in the pool are distinct, and those created
are as they were. -/
structure Sound (codec : Codec P) (s : Stealer k P) : Prop where
  worker : s.balancer.schedulerWorker = true
  nodup : s.owned.Nodup
  existing : ∀ n ∈ s.owned, n ≤ s.balancer.uniqueIdCounter
  active : ∀ t, ∀ a ∈ s.stack t, a.Sound s.balancer
  pooled : ∀ n ∈ s.balancer.threadPool, ∃ c, (s.balancer.node n).arguments = some c ∧ c.Sends
  received : ∀ c ∈ s.received, c.Sends
  pushed : ∀ e ∈ s.pushed, (codec.deserialize e.1 e.2).Sends

section Totals

variable {A : Type} [AddCommMonoid A] {active : ActiveCall → A} {pooled pooled' : NodeId → A}
  {received : Call → A} {pushed : ℤ × P → A} {gone come : A} {s : Stealer k P} {t : Fin k}

theorem total_stack {l : List ActiveCall}
    (h : (l.map active).sum + gone = ((s.stack t).map active).sum + come) :
    total active pooled received pushed { s with stack := Function.update s.stack t l } + gone =
      s.total active pooled received pushed + come := by
  have hStack : ∑ u, ((Function.update s.stack t l u).map active).sum + gone =
      ∑ u, ((s.stack u).map active).sum + come :=
    sum_update (fun l : List ActiveCall => (l.map active).sum) h
  rw [total, total, add_right_comm _ _ gone, add_right_comm _ _ gone, add_right_comm _ _ gone,
    hStack, add_right_comm _ _ come, add_right_comm _ _ come, add_right_comm _ _ come]

theorem total_setTop {a a' : ActiveCall} {rest : List ActiveCall} (h : s.stack t = a :: rest) :
    total active pooled received pushed (s.setTop t a') + active a =
      s.total active pooled received pushed + active a' := by
  apply total_stack
  rw [h, List.tail_cons, List.map_cons, List.map_cons, List.sum_cons, List.sum_cons,
    add_right_comm, add_comm (active a'), add_right_comm, add_right_comm _ _ (active a')]

theorem total_call (node : Option NodeId) (c : Call) :
    total active pooled received pushed (s.call t node c) =
      s.total active pooled received pushed + active ⟨node, node, c.children, []⟩ := by
  refine (add_zero _).symm.trans (total_stack ?_)
  rw [List.map_cons, List.sum_cons, add_zero, add_comm]

theorem total_balancer {b : Balancer} (hPool : b.threadPool = s.balancer.threadPool)
    (h : ∀ n ∈ s.balancer.threadPool, pooled' n = pooled n) :
    total active pooled' received pushed { s with balancer := b } =
      s.total active pooled received pushed := by
  have hMap : s.balancer.threadPool.map pooled' = s.balancer.threadPool.map pooled :=
    List.map_congr_left h
  rw [total, total, hPool, hMap]

theorem total_pool {b : Balancer}
    (h : (b.threadPool.map pooled).sum + gone = (s.balancer.threadPool.map pooled').sum + come) :
    total active pooled received pushed { s with balancer := b } + gone =
      s.total active pooled' received pushed + come := by
  simp only [total]
  rw [add_right_comm _ _ gone, add_right_comm _ _ gone, add_assoc _ _ gone, h, ← add_assoc,
    add_right_comm _ come, add_right_comm _ come]

theorem total_received {l : List Call}
    (h : (l.map received).sum + gone = (s.received.map received).sum + come) :
    total active pooled received pushed { s with received := l } + gone =
      s.total active pooled received pushed + come := by
  simp only [total]
  rw [add_right_comm _ _ gone, add_assoc _ _ gone, h, ← add_assoc, add_right_comm _ come]

theorem total_pushed {l : List (ℤ × P)}
    (h : (l.map pushed).sum + gone = (s.pushed.map pushed).sum + come) :
    total active pooled received pushed { s with pushed := l } + gone =
      s.total active pooled received pushed + come := by
  simp only [total]
  rw [add_assoc _ _ gone, h, ← add_assoc]

end Totals

variable {s s' : Stealer k P} {t : Fin k} {n m : NodeId} {c : Call} {b : Balancer}
  {a a' : ActiveCall} {rest : List ActiveCall}

theorem coe_eraseIdx {α β : Type} {l : List α} {i : ℕ} {x : α} (h : l[i]? = some x) (f : α → β) :
    (l.map f : Multiset β) = f x ::ₘ ((l.eraseIdx i).map f : List β) := by
  obtain ⟨hi, hGet⟩ := List.getElem?_eq_some_iff.mp h
  have hPerm := (List.getElem_cons_eraseIdx_perm hi).map f
  rw [hGet] at hPerm
  exact (Multiset.coe_eq_coe.mpr hPerm).symm

theorem mem_sum_map {α β : Type} {l : List α} {f : α → Multiset β} {x : β} :
    x ∈ (l.map f).sum ↔ ∃ y ∈ l, x ∈ f y := by
  induction l with
  | nil => simp
  | cons y l ih => simp [ih]

theorem mem_update_stack {stack : Fin k → List ActiveCall} {l : List ActiveCall} {u : Fin k}
    {x : ActiveCall} (h : x ∈ Function.update stack t l u) : x ∈ l ∨ x ∈ stack u := by
  obtain rfl | hu := eq_or_ne u t
  · rw [Function.update_self] at h
    exact .inl h
  · rw [Function.update_of_ne hu] at h
    exact .inr h

theorem mem_owned : n ∈ s.owned ↔
    (∃ t, ∃ a ∈ s.stack t, n ∈ a.owned) ∨ n ∈ s.balancer.threadPool := by
  simp [owned, total, Multiset.mem_sum, mem_sum_map]

theorem pooledObligation_eq (h : (b.node n).arguments = some c) :
    pooledObligation b n = {.pooled c} := by
  rw [pooledObligation, h]

theorem owned_setTop (a' : ActiveCall) (h : s.stack t = a :: rest) :
    (s.setTop t a').owned + a.owned = s.owned + a'.owned :=
  total_setTop h

/-- The thread gives up the obligations `gone` for `come` and keeps the others. -/
theorem obligations_setTop (gone come others : Multiset Obligation) (h : s.stack t = a :: rest)
    (ha : a.obligations = gone + others) (ha' : a'.obligations = come + others) :
    (s.setTop t a').obligations codec + gone = s.obligations codec + come := by
  have hTotal : (s.setTop t a').obligations codec + a.obligations =
      s.obligations codec + a'.obligations := total_setTop h
  rw [ha, ha', ← add_assoc, ← add_assoc] at hTotal
  exact add_right_cancel hTotal

theorem obligations_apart (hn : n ∉ s.owned) (hb : Apart n s.balancer b) :
    obligations codec { s with balancer := b } = s.obligations codec := by
  refine total_balancer hb.pool fun m hm => ?_
  have hmn : m ≠ n := by
    rintro rfl
    exact hn (mem_owned.mpr (.inr hm))
  rw [pooledObligation, hb.arguments hmn, pooledObligation]

theorem owned_apart (hb : Apart n s.balancer b) :
    owned { s with balancer := b } = s.owned :=
  total_balancer hb.pool fun _ _ => rfl

namespace Sound

theorem setStack (h : s.Sound codec) {l : List ActiveCall}
    (hl : ∀ x ∈ l, x.Sound s.balancer)
    (hNodup : (owned { s with stack := Function.update s.stack t l }).Nodup)
    (hExisting : ∀ n ∈ owned { s with stack := Function.update s.stack t l },
      n ≤ s.balancer.uniqueIdCounter) :
    Sound codec { s with stack := Function.update s.stack t l } where
  worker := h.worker
  nodup := hNodup
  existing := hExisting
  active u x hx := by
    obtain hx | hx := mem_update_stack hx
    · exact hl x hx
    · exact h.active u x hx
  pooled := h.pooled
  received := h.received
  pushed := h.pushed

theorem setTop (h : s.Sound codec) (ha : a'.Sound s.balancer)
    (hNodup : (s.setTop t a').owned.Nodup)
    (hExisting : ∀ n ∈ (s.setTop t a').owned, n ≤ s.balancer.uniqueIdCounter) :
    (s.setTop t a').Sound codec := by
  refine h.setStack (fun x hx => ?_) hNodup hExisting
  obtain rfl | hx := List.mem_cons.mp hx
  · exact ha
  · exact h.active t x (List.mem_of_mem_tail hx)

theorem apart (h : s.Sound codec) (hn : n ∉ s.owned) (hb : Apart n s.balancer b) :
    Sound codec { s with balancer := b } where
  worker := hb.worker.trans h.worker
  nodup := (owned_apart hb).symm ▸ h.nodup
  existing m hm := Nat.le_trans (h.existing m (owned_apart hb ▸ hm)) hb.counter
  active u x hx := by
    have hSound := h.active u x hx
    refine ⟨fun p hp => Nat.le_trans (hSound.parent p hp) hb.counter, fun e he => ?_,
      hSound.uncreated⟩
    have hen : e.1 ≠ n := by
      intro hen
      apply hn
      rw [← hen]
      refine mem_owned.mpr (.inl ⟨u, x, hx, ?_⟩)
      exact Multiset.mem_add.mpr (.inr (List.mem_map_of_mem he))
    exact ⟨(hb.node e.1 hen).trans (hSound.created e he).1, (hSound.created e he).2⟩
  pooled m hm := by
    have hm : m ∈ s.balancer.threadPool := hb.pool ▸ hm
    have hmn : m ≠ n := by
      rintro rfl
      exact hn (mem_owned.mpr (.inr hm))
    obtain ⟨c, hArguments, hc⟩ := h.pooled m hm
    exact ⟨c, (hb.arguments hmn).trans hArguments, hc⟩
  received := h.received
  pushed := h.pushed

theorem setTop_same (h : s.Sound codec) (hStack : s.stack t = a :: rest)
    (ha : a'.Sound s.balancer) (hOwned : a'.owned = a.owned) : (s.setTop t a').Sound codec := by
  have hSame : (s.setTop t a').owned = s.owned := by
    have hTotal := owned_setTop a' hStack
    rw [hOwned] at hTotal
    exact add_right_cancel hTotal
  refine h.setTop ha ?_ ?_
  · rw [hSame]
    exact h.nodup
  · rw [hSame]
    exact h.existing

theorem setTop_more (h : s.Sound codec) (hStack : s.stack t = a :: rest)
    (ha : a'.Sound s.balancer) (hOwned : a'.owned = n ::ₘ a.owned) (hn : n ∉ s.owned)
    (hExisting : n ≤ s.balancer.uniqueIdCounter) : (s.setTop t a').Sound codec := by
  have hMore : (s.setTop t a').owned = n ::ₘ s.owned := by
    have hTotal := owned_setTop a' hStack
    rw [hOwned, Multiset.add_cons, ← Multiset.cons_add] at hTotal
    exact add_right_cancel hTotal
  refine h.setTop ha ?_ ?_
  · rw [hMore]
    exact Multiset.nodup_cons.mpr ⟨hn, h.nodup⟩
  · rw [hMore]
    intro m hm
    obtain rfl | hm := Multiset.mem_cons.mp hm
    · exact hExisting
    · exact h.existing m hm

theorem setTop_less (h : s.Sound codec) (hStack : s.stack t = a :: rest) (a' : ActiveCall)
    (ha : a'.Sound s.balancer) (hOwned : a.owned = n ::ₘ a'.owned) :
    (s.setTop t a').Sound codec ∧ n ∉ (s.setTop t a').owned ∧
      n ≤ s.balancer.uniqueIdCounter := by
  have hLess : n ::ₘ (s.setTop t a').owned = s.owned := by
    have hTotal := owned_setTop a' hStack
    rw [hOwned, Multiset.add_cons, ← Multiset.cons_add] at hTotal
    exact add_right_cancel hTotal
  have hNodup := h.nodup
  rw [← hLess] at hNodup
  obtain ⟨hn, hNodup⟩ := Multiset.nodup_cons.mp hNodup
  have hExisting := h.existing
  rw [← hLess] at hExisting
  exact ⟨h.setTop ha hNodup fun m hm => hExisting m (Multiset.mem_cons_of_mem hm), hn,
    hExisting n (Multiset.mem_cons_self n _)⟩

end Sound

/-- A move meets an obligation and keeps the process sound. -/
def Advances (codec : Codec P) (s s' : Stealer k P) : Prop :=
  s'.Sound codec ∧ Obligation.Splits.Step
    ((s.executed : Multiset Call), s.obligations codec)
    ((s'.executed : Multiset Call), s'.obligations codec)

theorem head?_stack (h : (s.stack t).head? = some a) : s.stack t = a :: (s.stack t).tail :=
  (List.cons_head?_tail h).symm

theorem Sound.not_owned (h : s.Sound codec) : s.balancer.uniqueIdCounter + 1 ∉ s.owned :=
  fun hn => Nat.not_succ_le_self _ (h.existing _ hn)

theorem Sound.createDummy (h : s.Sound codec) (t : Fin k) :
    s.createDummy t = .blocked ∨ ∃ s', s.createDummy t = .moved s' ∧ Advances codec s s' := by
  rw [Stealer.createDummy]
  cases hHead : (s.stack t).head? with
  | none => exact .inl rfl
  | some a =>
    dsimp only
    have hStack := head?_stack hHead
    cases hParent : a.parent with
    | some p => exact .inl rfl
    | none =>
      have hApart := apart_construct s.balancer t .dummy
      have hSound := h.apart h.not_owned hApart
      have hActive := hSound.active t a (by
        change a ∈ s.stack t
        rw [hStack]
        exact List.mem_cons_self)
      refine .inr ⟨_, rfl, ?_, ?_⟩
      · refine hSound.setTop_same hStack ⟨?_, hActive.created, hActive.uncreated⟩ rfl
        rintro p ⟨⟩
        exact Nat.le_refl _
      · refine ⟨_, _, _, .createDummy, (zero_add _).symm, ?_⟩
        rw [← obligations_apart h.not_owned hApart]
        refine obligations_setTop _ _ ((a.uncreated.map .uncreated : List Obligation) +
          (a.created.map fun e => .created e.2 : List Obligation)) hStack ?_ ?_
        · rw [ActiveCall.obligations, hParent]
          rfl
        · rfl

theorem Sound.create (h : s.Sound codec) (t : Fin k) (i : ℕ) :
    s.create t i = .blocked ∨ ∃ s', s.create t i = .moved s' ∧ Advances codec s s' := by
  rw [Stealer.create]
  cases hHead : (s.stack t).head? with
  | none => exact .inl rfl
  | some a =>
    dsimp only
    have hStack := head?_stack hHead
    cases hCall : a.uncreated[i]? with
    | none => exact .inl rfl
    | some c =>
      dsimp only
      have hMem : a ∈ s.stack t := by
        rw [hStack]
        exact List.mem_cons_self
      have hSend := (h.active t a hMem).uncreated c (List.mem_of_getElem? hCall)
      obtain ⟨b, hOk, hApart, hCounter, hFresh⟩ :=
        createRootless_fresh (h.active t a hMem).parent t c
      have hSound := h.apart h.not_owned hApart
      have hActive := hSound.active t a hMem
      rw [hOk]
      refine .inr ⟨_, rfl, ?_, ?_⟩
      · refine hSound.setTop_more hStack ⟨hActive.parent, ?_, ?_⟩ ?_ ?_ (Nat.le_of_eq hCounter.symm)
        · intro e he
          obtain he | he := List.mem_append.mp he
          · exact hActive.created e he
          · rw [List.mem_singleton.mp he]
            exact ⟨hFresh, hSend⟩
        · intro d hd
          exact hActive.uncreated d (List.mem_of_mem_eraseIdx hd)
        · rw [ActiveCall.owned, ActiveCall.owned, List.map_append, ← Multiset.coe_add,
            ← add_assoc]
          exact (add_comm _ _).trans (Multiset.singleton_add _ _)
        · rw [owned_apart hApart]
          exact h.not_owned
      · refine ⟨_, _, _, .create c, (zero_add _).symm, ?_⟩
        rw [← obligations_apart h.not_owned hApart]
        refine obligations_setTop _ _ (.active a.parent.isNone ::ₘ
          (((a.uncreated.eraseIdx i).map .uncreated : List Obligation) +
            (a.created.map fun e => .created e.2 : List Obligation) : Multiset Obligation))
          hStack ?_ ?_
        · rw [ActiveCall.obligations, coe_eraseIdx hCall, Multiset.cons_add, Multiset.cons_swap]
          rfl
        · rw [ActiveCall.obligations, List.map_append, ← Multiset.coe_add, ← add_assoc,
            ← Multiset.cons_add, add_comm]
          rfl

theorem owned_call (node : Option NodeId) :
    (s.call t node c).owned = s.owned + (node.toList : Multiset NodeId) :=
  (total_call node c).trans (congrArg (s.owned + ·) (add_zero _))

theorem sum_singletons {α : Type} (l : List α) :
    (l.map fun x => ({x} : Multiset α)).sum = (l : Multiset α) := by
  induction l with
  | nil => rfl
  | cons x l ih =>
    rw [List.map_cons, List.sum_cons, ih]
    rfl

theorem owned_eq (s : Stealer k P) : s.owned =
    ∑ t, ((s.stack t).map ActiveCall.owned).sum + (s.balancer.threadPool : Multiset NodeId) := by
  simp [owned, total, sum_singletons]

theorem obligations_pool (h : (b.node n).arguments = some c) :
    obligations codec { s with balancer := { b with threadPool := b.threadPool ++ [n] } } =
      obligations codec { s with balancer := b } + {.pooled c} := by
  refine (add_zero _).symm.trans (total_pool (s := { s with balancer := b }) ?_)
  rw [List.map_append, List.sum_append, add_zero, List.map_singleton, List.sum_singleton,
    ← pooledObligation_eq h]
  rfl

theorem obligations_received (c : Call) :
    obligations codec { s with received := s.received ++ [c] } =
      s.obligations codec + {.pooled c} := by
  refine (add_zero _).symm.trans (total_received ?_)
  rw [List.map_append, List.sum_append, add_zero, List.map_singleton, List.sum_singleton]

theorem obligations_pushed (codec : Codec P) (e : ℤ × P) :
    obligations codec { s with pushed := s.pushed ++ [e] } =
      s.obligations codec + {.pushed (codec.deserialize e.1 e.2)} := by
  refine (add_zero _).symm.trans (total_pushed ?_)
  rw [List.map_append, List.sum_append, add_zero, List.map_singleton, List.sum_singleton]

theorem obligations_call (node : Option NodeId) :
    (s.call t node c).obligations codec =
      s.obligations codec + Obligation.ofCall node.isNone c :=
  (total_call node c).trans
    (congrArg (s.obligations codec + ·) (congrArg (_ ::ₘ ·) (add_zero _)))

/-- The user's function starts on arguments that it can work with. -/
theorem Sound.call (h : s.Sound codec) (hc : c.Sends) (t : Fin k) {node : Option NodeId}
    (hNode : ∀ n, node = some n → n ∉ s.owned ∧ n ≤ s.balancer.uniqueIdCounter) :
    (s.call t node c).Sound codec where
  worker := h.worker
  nodup := by
    rw [owned_call]
    cases node with
    | none => exact (add_zero s.owned).symm ▸ h.nodup
    | some n =>
      have hCons : s.owned + ((some n).toList : Multiset NodeId) = n ::ₘ s.owned :=
        (add_comm _ _).trans (Multiset.singleton_add _ _)
      rw [hCons]
      exact Multiset.nodup_cons.mpr ⟨(hNode n rfl).1, h.nodup⟩
  existing n hn := by
    rw [owned_call] at hn
    obtain hn | hn := Multiset.mem_add.mp hn
    · exact h.existing n hn
    · exact (hNode n (Option.mem_toList.mp hn)).2
  active u x hx := by
    obtain hx | hx := mem_update_stack hx
    · obtain rfl | hx := List.mem_cons.mp hx
      · exact ⟨fun p hp => (hNode p hp).2, fun e he => absurd he List.not_mem_nil, hc⟩
      · exact h.active t x hx
    · exact h.active u x hx
  pooled := h.pooled
  received := h.received
  pushed := h.pushed

theorem Sound.callDelegated (h : s.Sound codec) (hc : c.Sends) (t : Fin k) :
    (s.call t none c).Sound codec :=
  h.call hc t (by rintro _ ⟨⟩)

theorem Sound.handled {t' : Fin k} (h : s.Sound codec) (hHandled : Handled codec t' n c s s')
    (hn : n ∉ s.owned) (hExisting : n ≤ s.balancer.uniqueIdCounter) (hc : c.Sends) :
    s'.Sound codec := by
  cases hHandled with
  | skipped b hb hBranch => exact h.apart hn hb
  | started b hb hBranch =>
    refine (h.apart hn hb).call hc t' fun m hm => ?_
    cases hm
    rw [owned_apart hb]
    exact ⟨hn, Nat.le_trans hExisting hb.counter⟩
  | pooled b hb hBranch hArguments =>
    have hSound := h.apart hn hb
    have hOwned : owned { s with balancer := { b with threadPool := b.threadPool ++ [n] } } =
        n ::ₘ s.owned := by
      rw [← owned_apart hb, owned_eq, owned_eq, ← Multiset.coe_add, ← add_assoc]
      exact (add_comm _ _).trans (Multiset.singleton_add _ _)
    refine ⟨hSound.worker, ?_, ?_, fun u x hx => ⟨(hSound.active u x hx).parent,
      (hSound.active u x hx).created, (hSound.active u x hx).uncreated⟩, ?_, h.received, h.pushed⟩
    · rw [hOwned]
      exact Multiset.nodup_cons.mpr ⟨hn, h.nodup⟩
    · rw [hOwned]
      intro m hm
      refine Nat.le_trans ?_ hb.counter
      obtain rfl | hm := Multiset.mem_cons.mp hm
      · exact hExisting
      · exact h.existing m hm
    · intro m hm
      obtain hm | hm := List.mem_append.mp hm
      · exact hSound.pooled m hm
      · rw [List.mem_singleton.mp hm]
        exact ⟨c, hArguments, hc⟩
  | pushed b hb hBranch runnableId hId =>
    have hSound := h.apart hn hb
    have hOwned : owned { s with
        balancer := b, pushed := s.pushed ++ [(runnableId, codec.serialize c)] } = s.owned := by
      rw [← owned_apart hb, owned_eq, owned_eq]
    refine ⟨hSound.worker, ?_, ?_, hSound.active, hSound.pooled, h.received, ?_⟩
    · rw [hOwned]
      exact h.nodup
    · rw [hOwned]
      exact fun m hm => Nat.le_trans (h.existing m hm) hb.counter
    · intro e he
      obtain he | he := List.mem_append.mp he
      · exact h.pushed e he
      · rw [List.mem_singleton.mp he, codec.round_trip c runnableId hId]
        exact hc

theorem Handled.splits {t' : Fin k} (hHandled : Handled codec t' n c s s') (hn : n ∉ s.owned) :
    ∃ w ys, Obligation.Splits (.created c) w ys ∧
      (s'.executed : Multiset Call) = w + s.executed ∧
      s'.obligations codec = s.obligations codec + ys := by
  cases hHandled with
  | skipped b hb hBranch =>
    refine ⟨0, 0, .skip c hBranch, (zero_add _).symm, ?_⟩
    rw [obligations_apart hn hb, add_zero]
  | started b hb hBranch =>
    refine ⟨{c}, _, .start c hBranch, rfl, ?_⟩
    rw [obligations_call, obligations_apart hn hb]
    rfl
  | pooled b hb hBranch hArguments =>
    refine ⟨0, _, .pool c hBranch, (zero_add _).symm, ?_⟩
    rw [← obligations_apart hn hb]
    exact obligations_pool hArguments
  | pushed b hb hBranch runnableId hId =>
    refine ⟨0, _, .push c hBranch, (zero_add _).symm, ?_⟩
    have hPushed := obligations_pushed codec (s := { s with balancer := b })
      (runnableId, codec.serialize c)
    rw [codec.round_trip c runnableId hId, obligations_apart hn hb] at hPushed
    exact hPushed

theorem Sound.submit (h : s.Sound codec) (t : Fin k) (i : ℕ) :
    s.submit codec t i = .blocked ∨
      ∃ s', s.submit codec t i = .moved s' ∧ Advances codec s s' := by
  rw [Stealer.submit]
  cases hHead : (s.stack t).head? with
  | none => exact .inl rfl
  | some a =>
    dsimp only
    have hStack := head?_stack hHead
    cases hNode : a.created[i]? with
    | none => exact .inl rfl
    | some e =>
      obtain ⟨n, c⟩ := e
      dsimp only
      have hMem : a ∈ s.stack t := by
        rw [hStack]
        exact List.mem_cons_self
      have hActive := h.active t a hMem
      obtain ⟨hFresh, hSend⟩ := hActive.created (n, c) (List.mem_of_getElem? hNode)
      obtain ⟨hSound, hn, hExisting⟩ := h.setTop_less (n := n) hStack
        { a with created := a.created.eraseIdx i }
        ⟨hActive.parent, fun e he => hActive.created e (List.mem_of_mem_eraseIdx he),
          hActive.uncreated⟩ (by
          rw [ActiveCall.owned, coe_eraseIdx hNode, Multiset.add_cons]
          rfl)
      have hGone : (s.setTop t { a with created := a.created.eraseIdx i }).obligations codec +
          {.created c} = s.obligations codec := by
        refine (obligations_setTop _ 0 (.active a.parent.isNone ::ₘ
          ((a.uncreated.map .uncreated : List Obligation) +
            ((a.created.eraseIdx i).map fun e => .created e.2 : List Obligation) :
            Multiset Obligation)) hStack ?_ ?_).trans (add_zero _)
        · rw [ActiveCall.obligations, coe_eraseIdx hNode, Multiset.add_cons, Multiset.cons_swap]
          rfl
        · exact (zero_add _).symm
      obtain ⟨s', hOk, hHandled⟩ := handOver_handled codec t
        (s := s.setTop t { a with created := a.created.eraseIdx i }) hFresh h.worker hSend
      rw [hOk]
      refine .inr ⟨s', rfl, hSound.handled hHandled hn hExisting (Call.sends_of_sendable hSend), ?_⟩
      obtain ⟨w, ys, hSplits, hDone, hLeft⟩ := hHandled.splits hn
      refine ⟨_, w, ys, hSplits, hDone, ?_⟩
      rw [hLeft, ← hGone, add_right_comm]

theorem Sound.finish (h : s.Sound codec) (t : Fin k) :
    s.finish t = .blocked ∨ ∃ s', s.finish t = .moved s' ∧ Advances codec s s' := by
  rw [Stealer.finish]
  cases hHead : (s.stack t).head? with
  | none => exact .inl rfl
  | some a =>
    dsimp only
    have hStack := head?_stack hHead
    split
    · exact .inl rfl
    · rename_i hEmpty
      obtain ⟨hUncreated, hCreated⟩ := not_or.mp hEmpty
      have hUncreated : a.uncreated = [] := not_not.mp hUncreated
      have hCreated : a.created = [] := not_not.mp hCreated
      have hOwned : owned { s with stack := Function.update s.stack t (s.stack t).tail } +
          (a.node.toList : Multiset NodeId) = s.owned := by
        refine (total_stack ?_).trans (add_zero _)
        conv_rhs => rw [hStack]
        rw [List.map_cons, List.sum_cons, add_zero, ActiveCall.owned, hCreated, add_comm]
        exact congrArg (· + _) (add_zero _).symm
      have hLeft : obligations codec
          { s with stack := Function.update s.stack t (s.stack t).tail } +
          {.active a.parent.isNone} = s.obligations codec := by
        refine (total_stack ?_).trans (add_zero _)
        conv_rhs => rw [hStack]
        rw [List.map_cons, List.sum_cons, add_zero, ActiveCall.obligations, hUncreated, hCreated,
          add_comm]
        rfl
      have hNodup := h.nodup
      rw [← hOwned] at hNodup
      obtain ⟨hNodup, -, hDisjoint⟩ := Multiset.nodup_add.mp hNodup
      have hSound : Sound codec
          { s with stack := Function.update s.stack t (s.stack t).tail } := by
        refine h.setStack (fun x hx => h.active t x (List.mem_of_mem_tail hx)) hNodup ?_
        intro n hn
        apply h.existing n
        rw [← hOwned]
        exact Multiset.mem_add.mpr (.inl hn)
      cases hNode : a.node with
      | none =>
        refine .inr ⟨_, rfl, hSound, _, _, _, .finish a.parent.isNone, (zero_add _).symm, ?_⟩
        exact hLeft.trans (add_zero _).symm
      | some n =>
        have hn : n ∉ owned { s with stack := Function.update s.stack t (s.stack t).tail } := by
          intro hn
          apply Multiset.disjoint_left.mp hDisjoint hn
          rw [hNode]
          exact List.mem_singleton.mpr rfl
        have hApart := (apart_modify n (fun m => { m with state := .forwarded }) s.balancer).trans
          (apart_pruned n _)
        dsimp only
        rw [leave, prune_eq]
        refine .inr ⟨_, rfl, hSound.apart hn hApart, _, _, _, .finish a.parent.isNone,
          (zero_add _).symm, ?_⟩
        refine Eq.trans ?_ (hLeft.trans (add_zero _).symm)
        exact congrArg (· + _) (obligations_apart hn hApart)

theorem Sound.takeTask (h : s.Sound codec) (t : Fin k) (i : ℕ) :
    s.takeTask t i = .blocked ∨ ∃ s', s.takeTask t i = .moved s' ∧ Advances codec s s' := by
  rw [Stealer.takeTask]
  cases hTask : s.balancer.threadPool[i]? with
  | none => exact .inl rfl
  | some n =>
    dsimp only
    split
    · exact .inl rfl
    · obtain ⟨c, hArguments, hc⟩ := h.pooled n (List.mem_of_getElem? hTask)
      have hInvoke : invoke { s with balancer :=
          { s.balancer with threadPool := s.balancer.threadPool.eraseIdx i } } t n true =
          .ok (Stealer.call { s with balancer :=
            { s.balancer with threadPool := s.balancer.threadPool.eraseIdx i } } t none c) := by
        rw [invoke]
        simp only [hArguments]
        rfl
      have hOwned : n ::ₘ owned { s with balancer :=
          { s.balancer with threadPool := s.balancer.threadPool.eraseIdx i } } = s.owned := by
        have hErase := coe_eraseIdx hTask id
        rw [List.map_id, List.map_id] at hErase
        rw [owned_eq, owned_eq, hErase, Multiset.add_cons]
        rfl
      have hNodup := h.nodup
      rw [← hOwned] at hNodup
      have hSound : Sound codec { s with balancer :=
          { s.balancer with threadPool := s.balancer.threadPool.eraseIdx i } } := by
        refine ⟨h.worker, (Multiset.nodup_cons.mp hNodup).2, fun m hm => h.existing m ?_,
          fun u x hx => ⟨(h.active u x hx).parent, (h.active u x hx).created,
            (h.active u x hx).uncreated⟩,
          fun m hm => h.pooled m (List.mem_of_mem_eraseIdx hm), h.received, h.pushed⟩
        rw [← hOwned]
        exact Multiset.mem_cons_of_mem hm
      have hLeft : obligations codec { s with balancer :=
          { s.balancer with threadPool := s.balancer.threadPool.eraseIdx i } } + {.pooled c} =
          s.obligations codec := by
        refine (total_pool ?_).trans (add_zero _)
        rw [add_zero, ← pooledObligation_eq hArguments]
        exact sum_eraseIdx hTask (pooledObligation s.balancer)
      rw [hInvoke]
      refine .inr ⟨_, rfl, hSound.callDelegated hc t, _, _, _, .task c, rfl, ?_⟩
      refine Eq.trans ?_ (congrArg (· + _) hLeft)
      exact (congrArg (· + _) (obligations_call none)).trans (add_right_comm _ _ _)

theorem Sound.takeReceived (h : s.Sound codec) (t : Fin k) (i : ℕ) :
    s.takeReceived t i = .blocked ∨
      ∃ s', s.takeReceived t i = .moved s' ∧ Advances codec s s' := by
  rw [Stealer.takeReceived]
  cases hTask : s.received[i]? with
  | none => exact .inl rfl
  | some c =>
    dsimp only
    split
    · exact .inl rfl
    · have hSound : Sound codec { s with received := s.received.eraseIdx i } := by
        have hOwned : owned { s with received := s.received.eraseIdx i } = s.owned := by
          rw [owned_eq, owned_eq]
        exact ⟨h.worker, hOwned.symm ▸ h.nodup, hOwned.symm ▸ h.existing, h.active, h.pooled,
          fun d hd => h.received d (List.mem_of_mem_eraseIdx hd), h.pushed⟩
      have hLeft : obligations codec { s with received := s.received.eraseIdx i } + {.pooled c} =
          s.obligations codec := by
        refine (total_received ?_).trans (add_zero _)
        rw [add_zero]
        exact sum_eraseIdx hTask fun c => ({.pooled c} : Multiset Obligation)
      refine .inr ⟨_, rfl, hSound.callDelegated (h.received c (List.mem_of_getElem? hTask)) t,
        _, _, _, .task c, rfl, ?_⟩
      refine Eq.trans ?_ (congrArg (· + _) hLeft)
      exact (congrArg (· + _) (obligations_call none)).trans (add_right_comm _ _ _)

theorem Sound.step (h : s.Sound codec) (action : Action k) :
    s.step codec action = .blocked ∨
      ∃ s', s.step codec action = .moved s' ∧ Advances codec s s' := by
  cases action with
  | createDummy t => exact h.createDummy t
  | create t i => exact h.create t i
  | submit t i => exact h.submit t i
  | finish t => exact h.finish t
  | task t i => exact h.takeTask t i
  | received t i => exact h.takeReceived t i

theorem Sound.forget (h : s.Sound codec) {e : ℤ × P} {i : ℕ} (he : s.pushed[i]? = some e) :
    Sound codec { s with pushed := s.pushed.eraseIdx i } ∧
      obligations codec { s with pushed := s.pushed.eraseIdx i } +
        {.pushed (codec.deserialize e.1 e.2)} = s.obligations codec := by
  have hOwned : owned { s with pushed := s.pushed.eraseIdx i } = s.owned := by
    rw [owned_eq, owned_eq]
  refine ⟨⟨h.worker, hOwned.symm ▸ h.nodup, hOwned.symm ▸ h.existing, h.active, h.pooled,
    h.received, fun x hx => h.pushed x (List.mem_of_mem_eraseIdx hx)⟩, ?_⟩
  refine (total_pushed ?_).trans (add_zero _)
  rw [add_zero]
  exact sum_eraseIdx he fun e => ({.pushed (codec.deserialize e.1 e.2)} : Multiset Obligation)

theorem Sound.accept (h : s.Sound codec) (e : ℤ × P)
    (he : (codec.deserialize e.1 e.2).Sends) :
    (s.accept codec e).Sound codec ∧ (s.accept codec e).obligations codec =
      s.obligations codec + {.pooled (codec.deserialize e.1 e.2)} := by
  have hOwned : (s.accept codec e).owned = s.owned := by
    rw [owned_eq, owned_eq]
    rfl
  refine ⟨⟨h.worker, hOwned.symm ▸ h.nodup, hOwned.symm ▸ h.existing, fun u x hx =>
    ⟨(h.active u x hx).parent, (h.active u x hx).created, (h.active u x hx).uncreated⟩,
    h.pooled, fun c hc => ?_, h.pushed⟩, ?_⟩
  · obtain hc | hc := List.mem_append.mp hc
    · exact h.received c hc
    · rw [List.mem_singleton.mp hc]
      exact he
  · exact obligations_received (codec.deserialize e.1 e.2)

end Stealer

end Gempba
