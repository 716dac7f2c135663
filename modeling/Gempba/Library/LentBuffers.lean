import Gempba.Library.SafeSteps
import Mathlib.Data.Nat.Notation
import Mathlib.Logic.Function.Basic

/-!
# Buffers lent to a message layer

A posted message borrows the buffer of its sender until it has been copied, at
the latest when it is received. The sender gives a buffer up only when a test
of the request says that this has happened. Messages of one route arrive in
the order in which they were posted.
-/

namespace Lent

set_option autoImplicit false

open Transition

structure Route (ρ τ : Type) where
  source : ρ
  dest : ρ
  tag : τ
  deriving DecidableEq

/-- A message under way. What its buffer held when it was posted is bookkeeping; `copied` is
what the message layer has taken out of the buffer. -/
structure Message (β : Type) where
  number : ℕ
  posted : β
  copied : Option β

/-- The messages of a route, oldest first. Those at the front can be probed. -/
structure Lane (β : Type) where
  messages : List (Message β)
  visible : ℕ

def Lane.posted {β : Type} (l : Lane β) : List β := l.messages.map (·.posted)

/-- A buffer that its owner keeps for a request. -/
structure Send (ρ τ β : Type) where
  route : Route ρ τ
  number : ℕ
  buffer : β

structure Net (ρ τ β : Type) where
  sends : ρ → List (Send ρ τ β)
  lane : Route ρ τ → Lane β
  next : ℕ

/-- A buffer is read that its owner has given up. -/
inductive Fault where
  | freed
  deriving DecidableEq, Repr

namespace Net

variable {ρ τ β : Type} {net : Net ρ τ β} {route : Route ρ τ} {source : ρ} {m : Message β}

def empty : Net ρ τ β := ⟨fun _ => [], fun _ => ⟨[], 0⟩, 0⟩

/-- The request can be completed: its message needs the buffer no longer. -/
def Finished (send : Send ρ τ β) (net : Net ρ τ β) : Prop :=
  ∀ m ∈ (net.lane send.route).messages, m.number = send.number → m.copied.isSome = true

instance (send : Send ρ τ β) (net : Net ρ τ β) : Decidable (net.Finished send) := by
  unfold Finished
  infer_instance

/-- The bytes of a message, read from the buffer when they have not been copied. -/
def content (source : ρ) (m : Message β) (net : Net ρ τ β) : Option β :=
  match m.copied with
  | some b => some b
  | none => ((net.sends source).find? fun send => send.number = m.number).map (·.buffer)

/-- What a message that has not been copied is read from is still there. -/
structure Kept (route : Route ρ τ) (m : Message β) (net : Net ρ τ β) : Prop where
  copied : ∀ b, m.copied = some b → b = m.posted
  lent : m.copied = none → ⟨route, m.number, m.posted⟩ ∈ net.sends route.source

structure Sound (net : Net ρ τ β) : Prop where
  fresh : ∀ source, ∀ send ∈ net.sends source, send.number < net.next
  distinct : ∀ source, (net.sends source).Pairwise fun a b => a.number ≠ b.number
  kept : ∀ route, ∀ m ∈ (net.lane route).messages, net.Kept route m

theorem sound_empty : Sound (empty : Net ρ τ β) where
  fresh source send h := by cases h
  distinct source := .nil
  kept route m h := by cases h

theorem find_of_mem {sends : List (Send ρ τ β)} {send : Send ρ τ β}
    (hdistinct : sends.Pairwise fun a b => a.number ≠ b.number) (hsend : send ∈ sends) :
    (sends.find? fun a => a.number = send.number) = some send := by
  induction sends with
  | nil => cases hsend
  | cons a sends ih =>
    obtain ⟨ha, hdistinct⟩ := List.pairwise_cons.mp hdistinct
    obtain rfl | hmem := List.mem_cons.mp hsend
    · exact List.find?_cons_of_pos (decide_eq_true rfl)
    · rw [List.find?_cons_of_neg]
      · exact ih hdistinct hmem
      · rw [decide_eq_true_iff]
        exact ha send hmem

/-- A message is read as it was posted. -/
theorem Sound.content_eq (h : net.Sound) (hm : m ∈ (net.lane route).messages) :
    net.content route.source m = some m.posted := by
  have hkept := h.kept route m hm
  rw [content]
  split
  · rename_i b hcopied
    rw [hkept.copied b hcopied]
  · rename_i hcopied
    have hsend := hkept.lent hcopied
    have hfind := find_of_mem (h.distinct route.source) hsend
    rw [hfind]
    rfl

variable [DecidableEq ρ]

def setSends (source : ρ) (sends : List (Send ρ τ β)) (net : Net ρ τ β) : Net ρ τ β :=
  { net with sends := Function.update net.sends source sends }

/-- Gives up the buffers whose requests are tested with success. -/
def reap (source : ρ) (tests : ℕ → Bool) (net : Net ρ τ β) : Net ρ τ β :=
  net.setSends source ((net.sends source).filter fun send =>
    !(tests send.number && decide (net.Finished send)))

/-- Gives up all buffers, once every request is completed. -/
def release (source : ρ) (net : Net ρ τ β) : Option (Net ρ τ β) :=
  if ∀ send ∈ net.sends source, net.Finished send then some (net.setSends source []) else none

theorem sends_setSends (sends : List (Send ρ τ β)) (source' : ρ) :
    (net.setSends source sends).sends source' =
      if source' = source then sends else net.sends source' := Function.update_apply ..

theorem Sound.setSends (h : net.Sound) {sends : List (Send ρ τ β)}
    (hsublist : sends.Sublist (net.sends source))
    (hfinished : ∀ send ∈ net.sends source, send ∉ sends → net.Finished send) :
    (net.setSends source sends).Sound := by
  constructor
  · intro source' send hsend
    rw [sends_setSends] at hsend
    split at hsend
    · exact h.fresh source send (hsublist.subset hsend)
    · exact h.fresh source' send hsend
  · intro source'
    rw [sends_setSends]
    split
    · exact (h.distinct source).sublist hsublist
    · exact h.distinct source'
  · intro route m hm
    have hkept := h.kept route m hm
    refine ⟨hkept.copied, ?_⟩
    intro hnone
    have hsend := hkept.lent hnone
    rw [sends_setSends]
    split
    · rename_i hsource
      rw [hsource] at hsend
      by_contra hgone
      have hsome := hfinished _ hsend hgone m hm rfl
      rw [hnone] at hsome
      cases hsome
    · exact hsend

theorem Sound.reap (h : net.Sound) (source : ρ) (tests : ℕ → Bool) :
    (net.reap source tests).Sound := by
  apply h.setSends List.filter_sublist
  intro send hsend hgone
  rw [List.mem_filter, and_iff_right hsend, Bool.not_eq_true', Bool.not_eq_false,
    Bool.and_eq_true, decide_eq_true_iff] at hgone
  exact hgone.2

theorem release_eq_some {net' : Net ρ τ β} (h : net.release source = some net') :
    net' = net.setSends source [] ∧ ∀ send ∈ net.sends source, net.Finished send := by
  rw [release] at h
  split at h
  · rename_i hall
    exact ⟨(Option.some.inj h).symm, hall⟩
  · cases h

theorem Sound.release (h : net.Sound) {net' : Net ρ τ β}
    (hrelease : net.release source = some net') : net'.Sound := by
  obtain ⟨rfl, hall⟩ := release_eq_some hrelease
  apply h.setSends (List.nil_sublist _)
  intro send hsend _
  exact hall send hsend

variable [DecidableEq τ]

def setLane (route : Route ρ τ) (l : Lane β) (net : Net ρ τ β) : Net ρ τ β :=
  { net with lane := Function.update net.lane route l }

def post (route : Route ρ τ) (b : β) (net : Net ρ τ β) : Net ρ τ β where
  sends := Function.update net.sends route.source
    (net.sends route.source ++ [⟨route, net.next, b⟩])
  lane := Function.update net.lane route
    { net.lane route with messages := (net.lane route).messages ++ [⟨net.next, b, none⟩] }
  next := net.next + 1

def copy (route : Route ρ τ) (i : ℕ) (net : Net ρ τ β) : Outcome Fault (Net ρ τ β) :=
  let lane := net.lane route
  match lane.messages[i]? with
  | none => .blocked
  | some m =>
    match net.content route.source m with
    | none => .raised .freed
    | some b =>
      .moved (net.setLane route
        { lane with messages := lane.messages.set i { m with copied := some b } })

def arrive (route : Route ρ τ) (net : Net ρ τ β) : Option (Net ρ τ β) :=
  let lane := net.lane route
  if lane.visible < lane.messages.length then
    some (net.setLane route { lane with visible := lane.visible + 1 })
  else none

def receive (route : Route ρ τ) (net : Net ρ τ β) : Outcome Fault (β × Net ρ τ β) :=
  match net.lane route with
  | ⟨m :: messages, visible + 1⟩ =>
    match net.content route.source m with
    | none => .raised .freed
    | some b => .moved (b, net.setLane route ⟨messages, visible⟩)
  | ⟨_, _⟩ => .blocked

theorem sends_post (b : β) (source : ρ) :
    (net.post route b).sends source =
      if source = route.source then net.sends route.source ++ [⟨route, net.next, b⟩]
      else net.sends source := Function.update_apply ..

theorem lane_post (b : β) : (net.post route b).lane route =
    { net.lane route with messages := (net.lane route).messages ++ [⟨net.next, b, none⟩] } :=
  Function.update_self ..

theorem lane_post_ne {route' : Route ρ τ} (h : route' ≠ route) (b : β) :
    (net.post route b).lane route' = net.lane route' := Function.update_of_ne h ..

theorem lane_setLane (l : Lane β) : (net.setLane route l).lane route = l :=
  Function.update_self ..

theorem lane_setLane_ne {route' : Route ρ τ} (h : route' ≠ route) (l : Lane β) :
    (net.setLane route l).lane route' = net.lane route' := Function.update_of_ne h ..

/-- A lane may lose messages and have them copied. -/
theorem Sound.setLane (h : net.Sound) {l : Lane β}
    (hl : ∀ m ∈ l.messages, net.Kept route m) : (net.setLane route l).Sound where
  fresh := h.fresh
  distinct := h.distinct
  kept route' m hm := by
    obtain rfl | hne := eq_or_ne route' route
    · rw [lane_setLane] at hm
      have hkept := hl m hm
      exact ⟨hkept.copied, hkept.lent⟩
    · rw [lane_setLane_ne hne] at hm
      have hkept := h.kept route' m hm
      exact ⟨hkept.copied, hkept.lent⟩

theorem Sound.post (h : net.Sound) (route : Route ρ τ) (b : β) : (net.post route b).Sound := by
  have hsub : ∀ source, ∀ send ∈ net.sends source, send ∈ (net.post route b).sends source := by
    intro source send hsend
    rw [sends_post]
    split
    · rename_i hsource
      rw [← hsource]
      exact List.mem_append_left _ hsend
    · exact hsend
  constructor
  · intro source send hsend
    rw [sends_post] at hsend
    split at hsend
    · obtain hsend | hsend := List.mem_append.mp hsend
      · exact Nat.lt_succ_of_lt (h.fresh _ send hsend)
      · rw [List.mem_singleton.mp hsend]
        exact Nat.lt_succ_self _
    · exact Nat.lt_succ_of_lt (h.fresh source send hsend)
  · intro source
    rw [sends_post]
    split
    · rw [List.pairwise_append]
      refine ⟨h.distinct _, List.pairwise_singleton _ _, ?_⟩
      intro a ha c hc
      rw [List.mem_singleton.mp hc]
      exact Nat.ne_of_lt (h.fresh _ a ha)
    · exact h.distinct source
  · intro route' m hm
    obtain rfl | hne := eq_or_ne route' route
    · rw [lane_post] at hm
      obtain hm | hm := List.mem_append.mp hm
      · have hkept := h.kept route' m hm
        exact ⟨hkept.copied, fun hnone => hsub _ _ (hkept.lent hnone)⟩
      · rw [List.mem_singleton.mp hm]
        constructor
        · intro c hc
          cases hc
        · intro _
          rw [sends_post, if_pos rfl]
          exact List.mem_append_right _ (List.mem_singleton.mpr rfl)
    · rw [lane_post_ne hne] at hm
      have hkept := h.kept route' m hm
      exact ⟨hkept.copied, fun hnone => hsub _ _ (hkept.lent hnone)⟩

theorem Sound.arrive (h : net.Sound) {net' : Net ρ τ β} (harrive : net.arrive route = some net') :
    net'.Sound := by
  rw [Net.arrive] at harrive
  split at harrive
  · cases harrive
    exact h.setLane (h.kept route)
  · cases harrive

/-- No buffer is copied that has been given up, and each as it was posted. -/
theorem Sound.copy (h : net.Sound) (route : Route ρ τ) (i : ℕ) :
    (net.copy route i).Sure fun net' => net'.Sound ∧ net'.sends = net.sends ∧
      ∀ route', (net'.lane route').posted = (net.lane route').posted ∧
        (net'.lane route').visible = (net.lane route').visible := by
  rw [Net.copy]
  split
  · trivial
  · rename_i m hm
    have hmem : m ∈ (net.lane route).messages := List.mem_of_getElem? hm
    rw [h.content_eq hmem]
    refine ⟨?_, rfl, ?_⟩
    · apply h.setLane
      intro m' hm'
      obtain hm' | rfl := List.mem_or_eq_of_mem_set hm'
      · exact h.kept route m' hm'
      · exact ⟨fun b hb => (Option.some.inj hb).symm, fun hnone => by cases hnone⟩
    · intro route'
      obtain rfl | hne := eq_or_ne route' route
      · rw [lane_setLane]
        refine ⟨?_, rfl⟩
        rw [Lane.posted, Lane.posted, List.map_set]
        apply List.ext_getElem?
        intro j
        rw [List.getElem?_set, List.length_map]
        split
        · rename_i hij
          rw [← hij, List.getElem?_map, hm, if_pos (List.getElem?_eq_some_iff.mp hm).1]
          rfl
        · rfl
      · rw [lane_setLane_ne hne]
        exact ⟨rfl, rfl⟩

theorem Sound.receive (h : net.Sound) (route : Route ρ τ) :
    (net.receive route).Sure fun r => r.2.Sound ∧ r.2.sends = net.sends ∧
      (net.lane route).posted = r.1 :: (r.2.lane route).posted ∧
      (net.lane route).visible = (r.2.lane route).visible + 1 ∧
      ∀ route', route' ≠ route → r.2.lane route' = net.lane route' := by
  rw [Net.receive]
  split
  · rename_i m messages visible hlane
    have hmem : m ∈ (net.lane route).messages := by
      rw [hlane]
      exact List.mem_cons_self
    rw [h.content_eq hmem]
    refine ⟨?_, rfl, ?_, ?_, ?_⟩
    · apply h.setLane
      intro m' hm'
      apply h.kept route m'
      rw [hlane]
      exact List.mem_cons_of_mem m hm'
    · rw [lane_setLane, hlane]
      rfl
    · rw [lane_setLane, hlane]
    · intro route' hne
      exact lane_setLane_ne hne _
  · trivial

end Net

end Lent
