import Gempba.Cabi.UserData

/-!
# User data are released once

Whatever fails on the way, and however the engine copies and drops the nodes,
the user data of a call are there for as long as the engine can call back with
them, and are then released once. When the control block of the holder's
pointer cannot be allocated, they are released twice.
-/

namespace Gempba.Cabi

set_option autoImplicit false

open Transition

@[simp] theorem call_holder (c : CallId) : (Object.holder c).call = c := rfl

theorem eq_holder {x : Object} (h : x.isHolder = true) : x = .holder x.call := by
  cases x with
  | holder c => rfl
  | core c | serial c => cases h

/-- The call has a holder for its user data. -/
def Call.held (call : Call) : Bool :=
  call.kind = .full ∧ call.fault ≠ some .holder ∧ call.fault ≠ some .controlBlock

/-- How often a call without a holder releases the user data. -/
def Call.direct (call : Call) : ℕ :=
  match call.kind with
  | .dummy => 0
  | .stub => 1
  | .full =>
    if call.fault = some .holder then 1
    else if call.fault = some .controlBlock then 2
    else 0

namespace Abi

structure Custody (s : Abi) : Prop where
  sound : s.memory.Sound
  numbered : ∀ x ∈ s.memory.made, x.call < s.calls.length
  unreleased : ∀ c, s.calls.length ≤ c → c ∉ s.released
  released : ∀ c call, s.calls[c]? = some call → s.released.count c =
    if call.hooked then call.direct + s.memory.destroyed.count (.holder c) else 0
  holder : ∀ c call, s.calls[c]? = some call → (.holder c ∈ s.memory.made ↔ call.held = true)
  captured : ∀ c call, s.calls[c]? = some call → call.kind = .full → ∀ x : Object, x.call = c →
    x.isHolder = false → s.memory.InMemory x → (.object x, .holder c) ∈ s.memory.refs
  failed : ∀ c call, s.calls[c]? = some call → call.failure.isSome = true → ∀ o,
    (o, .holder c) ∈ s.memory.refs → ∃ t, o = .outside (.thread t) ∧ s.point t = .leaving c
  leaving : ∀ t c, s.point t = .leaving c →
    ∃ call, s.calls[c]? = some call ∧ s.lastError t = call.message

theorem custody_start (multiprocessing : Bool) : Custody (start multiprocessing) where
  sound := Counted.Store.sound_empty
  numbered x h := by cases h
  unreleased c _ h := by cases h
  released c call h := by cases h
  holder c call h := by cases h
  captured c call h := by cases h
  failed c call h := by cases h
  leaving t c h := by cases h

/-! ## What a call does to the memory -/

variable {s : Abi} {t : ThreadId} {c : CallId} {m m' : Memory} {x : Object}
  {o : Counted.Owner Outside Object}

/-- Only objects of the call are new. -/
structure Built (c : CallId) (m m' : Memory) : Prop where
  sound : m'.Sound
  destroyed : m'.destroyed = m.destroyed
  made : ∀ x : Object, x.call ≠ c → (x ∈ m'.made ↔ x ∈ m.made)
  inMemory : ∀ x : Object, x.call ≠ c → (m'.InMemory x ↔ m.InMemory x)
  kept : ∀ ref ∈ m.refs, ref ∈ m'.refs
  holders : ∀ o c', c' ≠ c → (o, .holder c') ∈ m'.refs → (o, .holder c') ∈ m.refs

theorem Built.refl (h : m.Sound) (c : CallId) : Built c m m where
  sound := h
  destroyed := rfl
  made _ _ := Iff.rfl
  inMemory _ _ := Iff.rfl
  kept _ href := href
  holders _ _ _ href := href

theorem Built.make (h : Built c m m') {e : Outside} (hcall : x.call = c) (hx : x ∉ m'.made) :
    Built c m (m'.make e x) where
  sound := h.sound.make hx
  destroyed := h.destroyed
  made y hy := by
    rw [← h.made y hy, Counted.Store.make, List.mem_append, List.mem_singleton]
    refine or_iff_left ?_
    rintro rfl
    exact hy hcall
  inMemory y hy := by
    rw [← h.inMemory y hy, Counted.Store.inMemory_make]
    refine or_iff_right ?_
    rintro rfl
    exact hy hcall
  kept ref href := Counted.Store.mem_refs_make.mpr (.inl (h.kept ref href))
  holders o c' hc' href := by
    obtain href | heq := Counted.Store.mem_refs_make.mp href
    · exact h.holders o c' hc' href
    · obtain rfl : Object.holder c' = x := congrArg Prod.snd heq
      exact absurd hcall hc'

theorem Built.share (h : Built c m m') (hx : m'.InMemory x) (ho : m'.Present o)
    (hcall : x.isHolder = true → x.call = c) : Built c m (m'.share o x) where
  sound := h.sound.share hx ho
  destroyed := h.destroyed
  made := h.made
  inMemory y hy := by
    rw [← h.inMemory y hy, Counted.Store.inMemory_share]
    refine or_iff_right_of_imp ?_
    rintro rfl
    exact hx
  kept ref href := Counted.Store.mem_refs_share.mpr (.inl (h.kept ref href))
  holders o' c' hc' href := by
    obtain href | heq := Counted.Store.mem_refs_share.mp href
    · exact h.holders o' c' hc' href
    · obtain rfl : Object.holder c' = x := congrArg Prod.snd heq
      exact absurd (hcall rfl) hc'

/-- The thread alone refers to the holder of its call, the only object of the call. -/
structure Held (t : ThreadId) (c : CallId) (m m' : Memory) : Prop where
  built : Built c m m'
  made : m'.made = m.made ++ [.holder c]
  held : (.outside (.thread t), .holder c) ∈ m'.refs
  owners : ∀ o, (o, .holder c) ∈ m'.refs → o = .outside (.thread t)

theorem Held.makeCppRunnable (h : Held t c m m') : Held t c m (makeCppRunnable t c m') where
  built := h.built.share (h.built.sound.inMemory h.held) trivial fun _ => rfl
  made := h.made
  held := Counted.Store.mem_refs_share.mpr (.inl h.held)
  owners o href := by
    obtain href | heq := Counted.Store.mem_refs_share.mp href
    · exact h.owners o href
    · exact congrArg Prod.fst heq

theorem Held.makeCppLazyArgs (h : Held t c m m') (f : Factory) :
    Held t c m (makeCppLazyArgs f t c m') := by
  rw [Abi.makeCppLazyArgs]
  split
  · exact h.makeCppRunnable
  · exact h

/-- The object that a call makes has a copy of its callback. -/
structure Product (c : CallId) (x : Object) (m m' : Memory) : Prop where
  built : Built c m m'
  made : m'.made = m.made ++ [.holder c] ++ [x]
  captured : (.object x, .holder c) ∈ m'.refs

theorem Product.share {y : Object} (h : Product c x m m') (hy : m'.InMemory y)
    (ho : m'.Present o) (hcall : y.isHolder = true → y.call = c) :
    Product c x m (m'.share o y) where
  built := h.built.share hy ho hcall
  made := h.made
  captured := Counted.Store.mem_refs_share.mpr (.inl h.captured)

/-- The new object is in memory as long as what it holds is there. -/
theorem Product.inMemory (h : Product c x m m') : m'.InMemory x :=
  h.built.sound.present _ _ h.captured

theorem Held.product (h : Held t c m m') (hcall : x.call = c) (hholder : x.isHolder = false)
    (hx : x ∉ m.made) :
    Product c x m ((m'.make (.wrapper c) x).share (.object x) (.holder c)) := by
  have hne : x ≠ .holder c := by
    rintro rfl
    cases hholder
  have hmade : x ∉ m'.made := by
    rw [h.made, List.mem_append, List.mem_singleton, not_or]
    exact ⟨hx, hne⟩
  have hbuilt : Built c m (m'.make (.wrapper c) x) := h.built.make hcall hmade
  have hmemory : (m'.make (.wrapper c) x).InMemory (.holder c) :=
    Counted.Store.inMemory_make.mpr (.inr (h.built.sound.inMemory h.held))
  constructor
  · exact hbuilt.share hmemory (Counted.Store.inMemory_make.mpr (.inl rfl)) fun _ => rfl
  · exact congrArg (· ++ [x]) h.made
  · exact Counted.Store.mem_refs_share.mpr (.inr rfl)

theorem call_product (f : Factory) (c : CallId) : (f.product c).call = c := by
  rw [Factory.product]
  split <;> rfl

theorem isHolder_product (f : Factory) (c : CallId) :
    (f.product c).isHolder = false := by
  rw [Factory.product]
  split <;> rfl

theorem Held.makeProduct {f : Factory} (h : Held t c m m') (hx : f.product c ∉ m.made) :
    Product c (f.product c) m (makeProduct f c m') := by
  have hproduct := h.product (call_product f c) (isHolder_product f c) hx
  rw [Abi.makeProduct]
  split
  · exact hproduct.share (hproduct.built.sound.inMemory hproduct.captured) hproduct.inMemory
      fun _ => rfl
  · exact hproduct

theorem Product.hang {parent : Option CallId} (h : Product c x m m') (hx : x.isHolder = false)
    (hparent : ∀ p ∈ parent, m'.InMemory (.core p)) : Product c x m (hang x parent m') := by
  cases parent with
  | none => exact h
  | some p =>
    have hp : m'.InMemory (.core p) := hparent p rfl
    have hchild : Product c x m (m'.share (.object x) (.core p)) :=
      h.share hp h.inMemory fun hholder => by cases hholder
    refine hchild.share hchild.inMemory (Counted.Store.inMemory_share.mpr (.inr hp)) ?_
    intro hholder
    rw [hx] at hholder
    cases hholder

theorem Custody.not_made (h : s.Custody) (hx : x.call = s.calls.length) : x ∉ s.memory.made := by
  intro hmem
  have hlt := h.numbered x hmem
  omega

theorem Custody.makeHolder (h : s.Custody) (t : ThreadId) :
    Held t s.calls.length s.memory (makeHolder t s.calls.length s.memory) where
  built := (Built.refl h.sound _).make rfl (h.not_made rfl)
  made := rfl
  held := Counted.Store.mem_refs_make.mpr (.inr rfl)
  owners o href := by
    obtain href | heq := Counted.Store.mem_refs_make.mp href
    · have hmade := (h.sound.made _).mpr (.inl (h.sound.inMemory href))
      exact absurd hmade (h.not_made rfl)
    · exact congrArg Prod.fst heq

/-! ## The end of a call -/

/-- What the end of a call must find. -/
structure Finishes (t : ThreadId) (call : Call) (s s' : Abi) : Prop where
  calls : s'.calls = s.calls
  point : s'.point = s.point
  lastError : s'.lastError = s.lastError
  built : Built s.calls.length s.memory s'.memory
  released : ∀ c, s'.released.count c =
    s.released.count c + if c = s.calls.length ∧ call.hooked = true then call.direct else 0
  holder : .holder s.calls.length ∈ s'.memory.made ↔ call.held = true
  captured : call.kind = .full → ∀ x : Object, x.call = s.calls.length → x.isHolder = false →
    s'.memory.InMemory x → (.object x, .holder s.calls.length) ∈ s'.memory.refs
  failed : call.failure.isSome = true → ∀ o, (o, .holder s.calls.length) ∈ s'.memory.refs →
    o = .outside (.thread t)

theorem Custody.finish (h : s.Custody) (ht : s.point t = .idle) {call : Call} {s' : Abi}
    (hs' : Finishes t call s s') : (s'.finish t call).Custody := by
  have hgone : s.memory.destroyed.count (.holder s.calls.length) = 0 := by
    rw [List.count_eq_zero]
    intro hmem
    exact h.not_made rfl ((h.sound.made _).mpr (.inr hmem))
  have hcases : ∀ c call', (s.calls ++ [call])[c]? = some call' →
      s.calls[c]? = some call' ∧ c < s.calls.length ∨ c = s.calls.length ∧ call' = call := by
    intro c call' hcall
    obtain hlt | rfl | hgt := Nat.lt_trichotomy c s.calls.length
    · rw [List.getElem?_append_left hlt] at hcall
      exact .inl ⟨hcall, hlt⟩
    · rw [List.getElem?_concat_length] at hcall
      exact .inr ⟨rfl, (Option.some.inj hcall).symm⟩
    · rw [List.getElem?_eq_none] at hcall
      · cases hcall
      · rw [List.length_append, List.length_singleton]
        exact hgt
  have hlength : (s'.finish t call).calls = s.calls ++ [call] := by
    rw [Abi.finish, ← hs'.calls]
    rfl
  have hpoint : ∀ t', (s'.finish t call).point t' =
      if t' = t then .leaving s.calls.length else s.point t' := by
    intro t'
    rw [← hs'.calls, ← hs'.point]
    exact Function.update_apply ..
  have herror : ∀ t', (s'.finish t call).lastError t' =
      if t' = t then call.message else s.lastError t' := by
    intro t'
    rw [← hs'.lastError]
    exact Function.update_apply ..
  constructor
  · exact hs'.built.sound
  · intro x hx
    rw [hlength, List.length_append, List.length_singleton]
    by_cases hcall : x.call = s.calls.length
    · omega
    · have hlt := h.numbered x ((hs'.built.made x hcall).mp hx)
      omega
  · intro c hc
    rw [hlength, List.length_append, List.length_singleton] at hc
    have hnone : (s'.finish t call).released.count c = 0 := by
      have hcount := hs'.released c
      rw [List.count_eq_zero.mpr (h.unreleased c (by omega)), if_neg] at hcount
      · exact hcount
      · rintro ⟨rfl, -⟩
        omega
    exact List.count_eq_zero.mp hnone
  · intro c call' hcall
    rw [hlength] at hcall
    have hcount : (s'.finish t call).released.count c = _ := hs'.released c
    have hdestroyed : (s'.finish t call).memory.destroyed = s.memory.destroyed :=
      hs'.built.destroyed
    rw [hcount, hdestroyed]
    obtain ⟨hcall, hlt⟩ | ⟨rfl, rfl⟩ := hcases c call' hcall
    · rw [if_neg, Nat.add_zero]
      · exact h.released c call' hcall
      · rintro ⟨rfl, -⟩
        omega
    · rw [hgone, List.count_eq_zero.mpr (h.unreleased _ (Nat.le_refl _))]
      simp
  · intro c call' hcall
    rw [hlength] at hcall
    obtain ⟨hcall, hlt⟩ | ⟨rfl, rfl⟩ := hcases c call' hcall
    · rw [← h.holder c call' hcall]
      exact hs'.built.made (.holder c) (Nat.ne_of_lt hlt)
    · exact hs'.holder
  · intro c call' hcall hkind x hx hholder hmem
    rw [hlength] at hcall
    obtain ⟨hcall, hlt⟩ | ⟨rfl, rfl⟩ := hcases c call' hcall
    · have hne : x.call ≠ s.calls.length := by omega
      have hmem := (hs'.built.inMemory x hne).mp hmem
      exact hs'.built.kept _ (h.captured c call' hcall hkind x hx hholder hmem)
    · exact hs'.captured hkind x hx hholder hmem
  · intro c call' hcall hfailure o href
    rw [hlength] at hcall
    obtain ⟨hcall, hlt⟩ | ⟨rfl, rfl⟩ := hcases c call' hcall
    · have href := hs'.built.holders o c (Nat.ne_of_lt hlt) href
      obtain ⟨t', ho, ht'⟩ := h.failed c call' hcall hfailure o href
      refine ⟨t', ho, ?_⟩
      rw [hpoint, if_neg]
      · exact ht'
      · rintro rfl
        rw [ht] at ht'
        cases ht'
    · refine ⟨t, hs'.failed hfailure o href, ?_⟩
      rw [hpoint, if_pos rfl]
  · intro t' c hleaving
    rw [hpoint] at hleaving
    rw [hlength, herror]
    split at hleaving
    · rename_i heq
      cases hleaving
      rw [if_pos heq]
      exact ⟨call, List.getElem?_concat_length, rfl⟩
    · rename_i hne
      obtain ⟨call', hcall, hmessage⟩ := h.leaving t' c hleaving
      rw [if_neg hne]
      refine ⟨call', ?_, hmessage⟩
      obtain ⟨hlt, -⟩ := List.getElem?_eq_some_iff.mp hcall
      rw [List.getElem?_append_left hlt]
      exact hcall

theorem count_release (hooked : Bool) (c c' : CallId) :
    (s.release hooked c).released.count c' =
      s.released.count c' + if c' = c ∧ hooked = true then 1 else 0 := by
  rw [release]
  cases hooked with
  | false => simp
  | true =>
    rw [if_pos rfl, List.count_append, List.count_singleton]
    simp only [beq_iff_eq, eq_comm (a := c), and_true]

theorem Custody.finishes_release (h : s.Custody) {call : Call} {s' : Abi}
    (hcalls : s'.calls = s.calls) (hpoint : s'.point = s.point)
    (hlastError : s'.lastError = s.lastError) (hmemory : s'.memory = s.memory)
    (hreleased : ∀ c, s'.released.count c =
      s.released.count c + if c = s.calls.length ∧ call.hooked = true then call.direct else 0)
    (hheld : call.held = false) : Finishes t call s s' where
  calls := hcalls
  point := hpoint
  lastError := hlastError
  built := by
    rw [hmemory]
    exact Built.refl h.sound _
  released := hreleased
  holder := by
    rw [hmemory, hheld]
    constructor
    · intro hmem
      exact absurd hmem (h.not_made rfl)
    · intro hfalse
      cases hfalse
  captured := by
    intro _ x hx _ hmem
    rw [hmemory] at hmem
    exact absurd ((h.sound.made x).mpr (.inl hmem)) (h.not_made hx)
  failed := by
    intro _ o href
    rw [hmemory] at href
    exact absurd ((h.sound.made _).mpr (.inl (h.sound.inMemory href))) (h.not_made rfl)

theorem Custody.finishes_held (h : s.Custody) {m : Memory} (hm : Held t s.calls.length s.memory m)
    {call : Call} (hheld : call.held = true) (hdirect : call.direct = 0) :
    Finishes t call s (s.setMemory m) where
  calls := rfl
  point := rfl
  lastError := rfl
  built := hm.built
  released c := by
    rw [hdirect, ite_self, Nat.add_zero]
    rfl
  holder := by
    refine iff_of_true ?_ hheld
    change _ ∈ m.made
    rw [hm.made]
    exact List.mem_append_right _ (List.mem_singleton_self _)
  captured := by
    intro _ x hx hholder hmem
    have hmade : x ∈ m.made := (hm.built.sound.made x).mpr (.inl hmem)
    rw [hm.made, List.mem_append, List.mem_singleton] at hmade
    obtain hmade | rfl := hmade
    · exact absurd hmade (h.not_made hx)
    · cases hholder
  failed _ := hm.owners

theorem Custody.finishes_product (h : s.Custody) {m : Memory}
    (hm : Product s.calls.length x s.memory m) {call : Call} (hheld : call.held = true)
    (hdirect : call.direct = 0) (hfailure : call.failure = none) :
    Finishes t call s (s.setMemory m) where
  calls := rfl
  point := rfl
  lastError := rfl
  built := hm.built
  released c := by
    rw [hdirect, ite_self, Nat.add_zero]
    rfl
  holder := by
    refine iff_of_true ?_ hheld
    change _ ∈ m.made
    rw [hm.made]
    exact List.mem_append_left _ (List.mem_append_right _ (List.mem_singleton_self _))
  captured := by
    intro _ y hy hholder hmem
    have hmade : y ∈ m.made := (hm.built.sound.made y).mpr (.inl hmem)
    rw [hm.made, List.mem_append, List.mem_append, List.mem_singleton, List.mem_singleton] at hmade
    obtain (hmade | rfl) | rfl := hmade
    · exact absurd hmade (h.not_made hy)
    · cases hholder
    · exact hm.captured
  failed hsome := by
    rw [hfailure] at hsome
    cases hsome

theorem held_of_fault (hooked : Bool) {fault : Option CreateFault} {failure : Option Failure}
    (hholder : fault ≠ some .holder) (hblock : fault ≠ some .controlBlock) :
    (Call.mk .full hooked fault failure).held = true ∧
      (Call.mk .full hooked fault failure).direct = 0 := by
  constructor
  · simp [Call.held, hholder, hblock]
  · simp [Call.direct, hholder, hblock]

/-! ## Every step keeps the custody -/

theorem Custody.createDummyNode (h : s.Custody) (ht : s.point t = .idle) (out : Bool)
    (fault : Option Thrown) : (s.createDummyNode t out fault).Custody := by
  have hfails : ∀ failure, (s.finish t ⟨.dummy, false, none, some failure⟩).Custody := by
    intro failure
    refine h.finish ht (h.finishes_release rfl rfl rfl rfl ?_ rfl)
    intro c
    simp
  cases out with
  | false => exact hfails _
  | true =>
    cases fault with
    | some e => exact hfails _
    | none =>
      apply h.finish ht
      constructor
      · rfl
      · rfl
      · rfl
      · exact (Built.refl h.sound _).make rfl (h.not_made rfl)
      · intro c
        simp [setMemory]
      · refine iff_of_false ?_ (by decide)
        intro hmem
        obtain hmem | hmem := List.mem_append.mp hmem
        · exact h.not_made rfl hmem
        · cases List.mem_singleton.mp hmem
      · intro hkind
        cases hkind
      · intro hfailure
        cases hfailure

theorem Custody.createStub (h : s.Custody) (ht : s.point t = .idle) (a : CreateArgs) :
    (s.createStub t a).Custody := by
  refine h.finish ht (h.finishes_release (by simp) (by simp) (by simp) (by simp) ?_ rfl)
  exact count_release a.hooked s.calls.length

theorem Custody.createFull (h : s.Custody) (ht : s.point t = .idle) {f : Factory}
    {a : CreateArgs} {fault : Option CreateFault} (hparent : s.ParentThere f a) :
    (s.createFull t f a fault).Custody := by
  have hmake := h.makeHolder t
  rw [Abi.createFull]
  split
  · rename_i hfault
    refine h.finish ht (h.finishes_release (by simp) (by simp) (by simp) (by simp) ?_ ?_)
    · intro c
      rw [count_release]
      simp [Call.direct, hfault]
    · simp [Call.held, hfault]
  · split
    · rename_i hfault
      refine h.finish ht (h.finishes_release (by simp) (by simp) (by simp) (by simp) ?_ ?_)
      · intro c
        rw [count_release, count_release, Nat.add_assoc]
        congr 1
        split <;> simp [Call.direct, hfault]
      · simp [Call.held, hfault]
    · rename_i hholder hblock
      -- every other fault finds the holder made, and held by the thread alone
      have hfails : ∀ {m failure}, Held t s.calls.length s.memory m →
          ((s.setMemory m).finish t ⟨.full, a.hooked, fault, some failure⟩).Custody := by
        intro m failure hm
        obtain ⟨hheld, hdirect⟩ := held_of_fault a.hooked hholder hblock
        exact h.finish ht (h.finishes_held hm hheld hdirect)
      have hclosure := hmake.makeCppRunnable
      have hparents : ∀ p ∈ f.parent a, ∀ {m}, Built s.calls.length s.memory m →
          m.InMemory (.core p) := by
        intro p hp m hbuilt
        exact hbuilt.sound.inMemory (hbuilt.kept _ (hparent p hp))
      have hclosures := hclosure.makeCppLazyArgs f
      split
      · exact hfails hmake
      · split
        · exact hfails hmake
        · split
          · exact hfails hclosure
          · split
            · exact hfails hclosures
            · split
              · exact hfails hclosures
              · obtain ⟨hheld, hdirect⟩ := held_of_fault a.hooked hholder hblock
                have hproduct := hclosures.makeProduct (h.not_made (call_product f _))
                have hhung := hproduct.hang (isHolder_product f _) fun p hp =>
                  hparents p hp hproduct.built
                exact h.finish ht (h.finishes_product hhung hheld hdirect rfl)

/-- Steps that neither make nor destroy, nor touch the references to holders. -/
theorem Custody.carry (h : s.Custody) {s' : Abi} (hcalls : s'.calls = s.calls)
    (hreleased : s'.released = s.released) (hsound : s'.memory.Sound)
    (hmade : s'.memory.made = s.memory.made) (hdestroyed : s'.memory.destroyed = s.memory.destroyed)
    (hmemory : ∀ x, s'.memory.InMemory x → s.memory.InMemory x)
    (hholders : ∀ o c, (o, .holder c) ∈ s'.memory.refs ↔ (o, .holder c) ∈ s.memory.refs)
    (hstay : ∀ t c, (.outside (.thread t), .holder c) ∈ s.memory.refs →
      s.point t = .leaving c → s'.point t = .leaving c)
    (hleaving : ∀ t c, s'.point t = .leaving c →
      s.point t = .leaving c ∧ s'.lastError t = s.lastError t) : s'.Custody where
  sound := hsound
  numbered := by
    rw [hmade, hcalls]
    exact h.numbered
  unreleased := by
    rw [hcalls, hreleased]
    exact h.unreleased
  released := by
    rw [hcalls, hreleased, hdestroyed]
    exact h.released
  holder := by
    rw [hcalls, hmade]
    exact h.holder
  captured := by
    rw [hcalls]
    intro c call hcall hkind x hx hholder hmem
    rw [hholders]
    exact h.captured c call hcall hkind x hx hholder (hmemory x hmem)
  failed := by
    rw [hcalls]
    intro c call hcall hfailure o href
    have href := (hholders o c).mp href
    obtain ⟨t, rfl, ht⟩ := h.failed c call hcall hfailure o href
    exact ⟨t, rfl, hstay t c href ht⟩
  leaving := by
    rw [hcalls]
    intro t c ht
    obtain ⟨ht, herror⟩ := hleaving t c ht
    rw [herror]
    exact h.leaving t c ht

theorem point_setPoint (t t' : ThreadId) (p : AbiPoint) :
    (s.setPoint t p).point t' = if t' = t then p else s.point t' := Function.update_apply ..

/-- A thread takes over a reference to a node or a serial runnable. -/
theorem Custody.move (h : s.Custody) (ht : s.point t = .idle) (href : (o, x) ∈ s.memory.refs)
    (hx : x.isHolder = false) :
    ((s.setMemory (s.memory.move o (.outside (.thread t)) x)).setPoint t .dropping).Custody := by
  have hne : ∀ o' c, (o', Object.holder c) ≠ (o, x) := by
    intro o' c heq
    cases heq
    cases hx
  have hmoved : (s.memory.move o (.outside (.thread t)) x).Sound := h.sound.move href trivial
  refine h.carry rfl rfl hmoved rfl rfl (fun _ hy => hy) ?_ ?_ ?_
  · intro o' c
    constructor
    · intro href'
      obtain href' | heq := Counted.Store.mem_refs_move href'
      · exact href'
      · obtain rfl : Object.holder c = x := congrArg Prod.snd heq
        cases hx
    · intro href'
      exact Counted.Store.mem_refs_move_of_ne href' (hne o' c)
  · intro t' c _ ht'
    rw [point_setPoint, if_neg]
    · exact ht'
    · rintro rfl
      rw [ht] at ht'
      cases ht'
  · intro t' c ht'
    rw [point_setPoint] at ht'
    split at ht'
    · cases ht'
    · exact ⟨ht', rfl⟩

theorem Custody.copy (h : s.Custody) {o' : Counted.Owner Outside Object}
    (href : (o, x) ∈ s.memory.refs) (hx : x.isHolder = false) (ho' : s.memory.Present o') :
    (s.setMemory (s.memory.share o' x)).Custody := by
  have hmemory := h.sound.inMemory href
  refine h.carry rfl rfl (h.sound.share hmemory ho') rfl rfl ?_ ?_ (fun _ _ _ ht => ht)
    fun _ _ ht => ⟨ht, rfl⟩
  · intro y hy
    obtain rfl | hy := Counted.Store.inMemory_share.mp hy
    · exact hmemory
    · exact hy
  · intro o'' c
    constructor
    · intro href'
      obtain href' | heq := Counted.Store.mem_refs_share.mp href'
      · exact href'
      · obtain rfl : Object.holder c = x := congrArg Prod.snd heq
        cases hx
    · intro href'
      exact Counted.Store.mem_refs_share.mpr (.inl href')

theorem Custody.leave (h : s.Custody)
    (hnone : ∀ ref ∈ s.memory.refs, ref.1 ≠ .outside (.thread t)) :
    (s.setPoint t .idle).Custody := by
  refine h.carry rfl rfl h.sound rfl rfl (fun _ hy => hy) (fun _ _ => Iff.rfl) ?_ ?_
  · intro t' c href ht'
    rw [point_setPoint, if_neg]
    · exact ht'
    · rintro rfl
      exact hnone _ href rfl
  · intro t' c ht'
    rw [point_setPoint] at ht'
    split at ht'
    · cases ht'
    · exact ⟨ht', rfl⟩

theorem Custody.setLastError (h : s.Custody) (ht : s.point t = .idle) (message : String) :
    (s.setLastError t message).Custody := by
  refine h.carry rfl rfl h.sound rfl rfl (fun _ hy => hy) (fun _ _ => Iff.rfl)
    (fun _ _ _ ht' => ht') ?_
  intro t' c ht'
  refine ⟨ht', Function.update_of_ne ?_ _ _⟩
  rintro rfl
  cases ht.symm.trans ht'

/-- The hook runs when the last reference to the holder goes. -/
theorem Custody.giveUp (h : s.Custody) (href : (.outside (.thread t), x) ∈ s.memory.refs) :
    (s.giveUp t x).Custody := by
  have hmade := (h.sound.made x).mpr (.inl (h.sound.inMemory href))
  have hlt := h.numbered x hmade
  have hcalls : (s.giveUp t x).calls = s.calls := calls_release ..
  have hmemory : (s.giveUp t x).memory = s.memory.drop (.thread t) x := memory_release ..
  have hpoint : (s.giveUp t x).point = s.point := point_release ..
  have herror : (s.giveUp t x).lastError = s.lastError := lastError_release ..
  have hreleased : ∀ c, (s.giveUp t x).released.count c = s.released.count c +
      if c = x.call ∧ (s.deletes x && s.hooked x.call) = true then 1 else 0 :=
    count_release _ x.call
  constructor
  · rw [hmemory]
    exact h.sound.drop href
  · rw [hmemory, hcalls, Counted.Store.made_drop]
    exact h.numbered
  · intro c hc
    rw [hcalls] at hc
    have hcount := hreleased c
    rw [List.count_eq_zero.mpr (h.unreleased c hc), if_neg] at hcount
    · exact List.count_eq_zero.mp hcount
    · rintro ⟨rfl, -⟩
      omega
  · intro c call hcall
    rw [hcalls] at hcall
    have hhooked : s.hooked c = call.hooked := by
      rw [hooked, hcall]
      rfl
    rw [hreleased, hmemory, h.released c call hcall, Counted.Store.destroyed_drop]
    by_cases hx : x = .holder c
    · subst hx
      rw [deletes, ← hhooked]
      by_cases hone : s.memory.count (.holder c) = 1
      · rw [call_holder]
        cases s.hooked c <;> simp [hone, Object.isHolder, Nat.add_assoc]
      · simp [hone]
    · have hkept : ¬ (c = x.call ∧ (s.deletes x && s.hooked x.call) = true) := by
        rintro ⟨rfl, hdeletes⟩
        rw [deletes, Bool.and_eq_true, Bool.and_eq_true] at hdeletes
        exact hx (eq_holder hdeletes.1.1)
      have hcount : (if s.memory.count x = 1 then s.memory.destroyed ++ [x]
          else s.memory.destroyed).count (.holder c) = s.memory.destroyed.count (.holder c) := by
        split
        · rw [List.count_append, List.count_singleton, if_neg, Nat.add_zero]
          rw [beq_iff_eq]
          exact hx
        · rfl
      rw [if_neg hkept, hcount, Nat.add_zero]
  · rw [hcalls, hmemory, Counted.Store.made_drop]
    exact h.holder
  · rw [hcalls, hmemory]
    intro c call hcall hkind y hy hholder hmem
    have hold := (Counted.Store.inMemory_drop.mp hmem).1
    exact Counted.Store.mem_refs_drop_of_object (h.captured c call hcall hkind y hy hholder hold)
      hmem
  · rw [hcalls, hmemory, hpoint]
    intro c call hcall hfailure o href'
    obtain ⟨href', -⟩ | ⟨-, href'⟩ := Counted.Store.mem_refs_drop href'
    · exact h.failed c call hcall hfailure o href'
    · obtain ⟨t', ht', -⟩ := h.failed c call hcall hfailure _ href'
      cases ht'
  · rw [hcalls, hpoint, herror]
    exact h.leaving

theorem Custody.step (h : s.Custody) (e : AbiEvent) : (Abi.step e s).Sure Custody := by
  cases e with
  | createDummyNode t out fault =>
    rw [Abi.step]
    split
    · rename_i ht
      exact h.createDummyNode ht out fault
    · trivial
  | create t entry a fault =>
    rw [Abi.step, Abi.create]
    split
    · rename_i ht
      split
      · exact h.createStub ht a
      · split
        · rename_i hparent
          exact h.createFull ht hparent
        · trivial
    · trivial
  | nodeDestroy t c =>
    rw [Abi.step, nodeDestroy, destroyWrapper]
    split
    · rename_i hguard
      exact h.move hguard.1 hguard.2 rfl
    · trivial
  | serialRunnableDestroy t c =>
    rw [Abi.step, serialRunnableDestroy, destroyWrapper]
    split
    · rename_i hguard
      exact h.move hguard.1 hguard.2 rfl
    · trivial
  | fallible t e =>
    rw [Abi.step, fallible]
    split
    · rename_i ht
      exact h.setLastError ht _
    · trivial
  | drop t x =>
    rw [Abi.step, Abi.drop]
    split
    · rename_i href
      exact h.giveUp href
    · trivial
  | leave t =>
    rw [Abi.step, Abi.leave]
    split
    · rename_i hguard
      exact h.leave hguard.2
    · trivial
  | copy o part x =>
    rw [Abi.step, Abi.copy]
    split
    · rename_i hguard
      obtain ⟨href, hx, hpart⟩ := hguard
      exact h.copy href hx hpart
    · trivial
  | letGo t part x =>
    rw [Abi.step, letGo]
    split
    · rename_i hguard
      obtain ⟨ht, href, hx⟩ := hguard
      exact h.move ht href hx
    · trivial
  | invoke o x =>
    rw [Abi.step, invoke]
    split
    · rename_i hguard
      obtain ⟨href, hx, hfull⟩ := hguard
      split
      · exact h
      · rename_i hreleased
        -- the closure that is called holds the user data
        obtain ⟨call, hcall, hkind⟩ := (Option.any_eq_true _ _).mp hfull
        have hcaptured := h.captured x.call call hcall (of_decide_eq_true hkind) x rfl hx
          (h.sound.inMemory href)
        exact hreleased (h.sound.inMemory hcaptured)
    · trivial

theorem Custody.of_reachable (h : abi.Reachable s) : s.Custody := by
  refine h.keeps ?_ fun s e _ hs _ => (hs.step e).keeps
  rintro s ⟨multiprocessing, rfl⟩
  exact custody_start multiprocessing

/-- The hook has run once the holder is gone. -/
theorem Custody.count_released (h : s.Custody) {call : Call} (hcall : s.calls[c]? = some call) :
    s.released.count c =
      if call.hooked = true ∧ call.kind ≠ .dummy then
        if call.kind = .full ∧ call.fault = some .controlBlock then 2
        else if s.memory.InMemory (.holder c) then 0
        else 1
      else 0 := by
  have hmade := h.holder c call hcall
  rw [h.released c call hcall]
  by_cases hheld : call.held = true
  · have hcount := h.sound.count_destroyed (hmade.mpr hheld)
    rw [Call.held, decide_eq_true_iff] at hheld
    obtain ⟨hkind, hholder, hblock⟩ := hheld
    rw [hcount, Call.direct, hkind]
    simp [hholder, hblock]
  · have hnot : .holder c ∉ s.memory.made := fun hmem => hheld (hmade.mp hmem)
    rw [h.sound.made, not_or] at hnot
    obtain ⟨hmemory, hdestroyed⟩ := hnot
    rw [List.count_eq_zero.mpr hdestroyed, if_neg hmemory, Nat.add_zero, Call.direct]
    cases hkind : call.kind with
    | dummy => simp
    | stub => simp
    | full =>
      by_cases hholder : call.fault = some .holder
      · simp [hholder]
      · by_cases hblock : call.fault = some .controlBlock
        · simp [hblock]
        · exact absurd (by simp [Call.held, hkind, hholder, hblock]) hheld

/-- No callback gets user data that have been released. The hook of a call runs when the last
reference to its holder goes, before the return if the call fails, and twice if the control block
is not allocated. Where nodes refer to each other in no cycle, user data that are left are reached
from a handle, a running thread or the engine. -/
theorem userData_releasedOnce (h : abi.Reachable s) :
    (∀ e fault, abi.step e s ≠ .raised fault) ∧
      ∀ c call, s.calls[c]? = some call →
        (s.released.count c =
          if call.hooked = true ∧ call.kind ≠ .dummy then
            if call.kind = .full ∧ call.fault = some .controlBlock then 2
            else if s.memory.InMemory (.holder c) then 0
            else 1
          else 0) ∧
        (call.kind = .full → ∀ o x, (o, x) ∈ s.memory.refs → x.call = c →
          s.memory.InMemory (.holder c)) ∧
        (call.failure.isSome = true → (∀ t, s.point t ≠ .leaving c) →
          ¬ s.memory.InMemory (.holder c)) ∧
        (∀ t, s.point t = .leaving c → s.lastError t = call.message) ∧
        (∀ depth : Object → ℕ, (∀ y x, s.memory.Holds y x → depth y < depth x) →
          s.memory.InMemory (.holder c) → ∃ e x, (.outside e, x) ∈ s.memory.refs ∧
            Relation.ReflTransGen s.memory.Holds x (.holder c)) := by
  have hs := Custody.of_reachable h
  refine ⟨fun e => (hs.step e).ne_raised, fun c call hcall => ?_⟩
  refine ⟨hs.count_released hcall, ?_, ?_, ?_, ?_⟩
  · rintro hkind o x href rfl
    cases hx : x.isHolder with
    | true =>
      rw [← eq_holder hx]
      exact hs.sound.inMemory href
    | false =>
      have hcaptured := hs.captured x.call call hcall hkind x rfl hx (hs.sound.inMemory href)
      exact hs.sound.inMemory hcaptured
  · intro hfailure hleft hmemory
    obtain ⟨o, href⟩ := hs.sound.exists_owner hmemory
    obtain ⟨t, -, ht⟩ := hs.failed c call hcall hfailure o href
    exact hleft t ht
  · intro t ht
    obtain ⟨call', hcall', herror⟩ := hs.leaving t c ht
    rw [hcall] at hcall'
    cases hcall'
    exact herror
  · intro depth hdepth hmemory
    exact hs.sound.reached hdepth hmemory

def allPresent (parent : Option CallId) : CreateArgs := ⟨true, true, true, true, true, parent⟩

/-- A lazy node under a dummy; then a call that finds no memory for its control block. -/
def releasesTwice : List AbiEvent := [
  .createDummyNode 0 true none, .leave 0,
  .create 0 .mtCreateLazyNode (allPresent (some 0)) none,
  .drop 0 (.holder 1), .drop 0 (.holder 1), .drop 0 (.holder 1), .leave 0,
  .create 1 .createSeedNode (allPresent none) (some .controlBlock), .leave 1]

theorem userData_releasedOnce_twice : ∃ s : Abi,
    abi.run releasesTwice (start true) = some s ∧ s.released.count 2 = 2 ∧
      s.released.count 1 = 0 ∧ s.memory.InMemory (.holder 1) := by
  have hrun : ∃ s : Abi, abi.run releasesTwice (start true) = some s ∧
      s.calls[1]? = some ⟨.full, true, none, none⟩ ∧
      s.calls[2]? = some ⟨.full, true, some .controlBlock, some (.thrown .badAlloc)⟩ ∧
      (.outside (.wrapper 1), .core 1) ∈ s.memory.refs :=
    ⟨_, rfl, rfl, rfl, by decide⟩
  obtain ⟨s, hs, hlazy, hblock, href⟩ := hrun
  have hstart : abi.Reachable (start true) := .start ⟨true, rfl⟩
  obtain ⟨-, hcalls⟩ := userData_releasedOnce (hstart.run hs)
  obtain ⟨hreleased, hthere, -⟩ := hcalls 1 _ hlazy
  have hmemory := hthere rfl _ _ href rfl
  refine ⟨s, hs, (hcalls 2 _ hblock).1, ?_, hmemory⟩
  rw [hreleased]
  simp [hmemory]

end Abi

end Gempba.Cabi
